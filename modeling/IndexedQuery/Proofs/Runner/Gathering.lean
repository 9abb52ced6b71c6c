import IndexedQuery.Runner.NestedLoop
import Mathlib.Data.List.Basic

namespace IndexedQuery

variable {α β γ ε : Type}

/-- What the items of a list contribute one after the other, up to the first error. -/
def gather (f : β → Except ε (List α)) : List β → Except ε (List α)
  | [] => .ok []
  | x :: xs => do
      let found ← f x
      return found ++ (← gather f xs)

variable {f : β → Except ε (List α)} {p : β → Bool} {x : β} {xs ys : List β}
  {found : List α} {e : ε}

theorem gather_cons_of_ok (h : f x = .ok found) (xs : List β) :
    gather f (x :: xs) = (found ++ ·) <$> gather f xs := by
  rw [gather, h]
  rcases gather f xs with e | more <;> rfl

theorem gather_cons_of_error (h : f x = .error e) (xs : List β) :
    gather f (x :: xs) = .error e := by
  rw [gather, h]
  rfl

theorem gather_cons_eq_ok (h : gather f (x :: xs) = .ok found) :
    ∃ first rest, f x = .ok first ∧ gather f xs = .ok rest ∧ found = first ++ rest := by
  rcases hx : f x with e | first
  · rw [gather_cons_of_error hx] at h
    cases h
  · rw [gather_cons_of_ok hx] at h
    rcases hxs : gather f xs with e | rest
    · rw [hxs] at h
      cases h
    · rw [hxs] at h
      cases h
      exact ⟨first, rest, rfl, rfl, rfl⟩

theorem gather_singleton (f : β → Except ε (List α)) (x : β) : gather f [x] = f x := by
  rcases h : f x with e | found
  · exact gather_cons_of_error h []
  · rw [gather_cons_of_ok h]
    exact congrArg Except.ok (List.append_nil found)

theorem gather_append_of_ok (h : gather f xs = .ok found) (ys : List β) :
    gather f (xs ++ ys) = (found ++ ·) <$> gather f ys := by
  induction xs generalizing found with
  | nil =>
      cases h
      rcases hys : gather f ys with e | more <;> simp [hys]
  | cons x xs ih =>
      obtain ⟨first, rest, hx, hxs, rfl⟩ := gather_cons_eq_ok h
      rw [List.cons_append, gather_cons_of_ok hx, ih hxs]
      rcases gather f ys with e | more
      · rfl
      · exact congrArg Except.ok (List.append_assoc first rest more).symm

theorem gather_append_of_error (h : gather f xs = .error e) (ys : List β) :
    gather f (xs ++ ys) = .error e := by
  induction xs with
  | nil => cases h
  | cons x xs ih =>
      rcases hx : f x with e' | first
      · rw [gather_cons_of_error hx] at h
        rw [List.cons_append, gather_cons_of_error hx, h]
      · rcases hxs : gather f xs with e' | rest
        · rw [gather_cons_of_ok hx, hxs] at h
          cases h
          rw [List.cons_append, gather_cons_of_ok hx, ih hxs]
          rfl
        · rw [gather_cons_of_ok hx, hxs] at h
          cases h

theorem gather_flatMap (f : β → Except ε (List α)) (g : γ → List β) (l : List γ) :
    gather f (l.flatMap g) = gather (fun x => gather f (g x)) l := by
  induction l with
  | nil => rfl
  | cons x l ih =>
      rw [List.flatMap_cons]
      rcases hx : gather f (g x) with e | found
      · rw [gather_append_of_error hx, gather_cons_of_error (f := fun x => gather f (g x)) hx]
      · rw [gather_append_of_ok hx, gather_cons_of_ok (f := fun x => gather f (g x)) hx, ih]

theorem gather_eq_flatten (f : β → Except ε (List α)) (xs : List β) :
    gather f xs = List.flatten <$> xs.mapM f := by
  induction xs with
  | nil => rfl
  | cons x xs ih =>
      rw [gather, List.mapM_cons, ih]
      rcases f x with e | found
      · rfl
      · rcases xs.mapM f with e | more <;> rfl

theorem exists_ok_of_gather (h : gather f xs = .ok found) (hx : x ∈ xs) :
    ∃ part, f x = .ok part ∧ part.Sublist found := by
  induction xs generalizing found with
  | nil => cases hx
  | cons y ys ih =>
      obtain ⟨first, rest, hy, hys, rfl⟩ := gather_cons_eq_ok h
      rcases List.mem_cons.mp hx with rfl | hx
      · exact ⟨first, hy, List.sublist_append_left first rest⟩
      · obtain ⟨part, hpart, hsub⟩ := ih hys hx
        exact ⟨part, hpart, hsub.trans (List.sublist_append_right first rest)⟩

theorem exists_of_mem_gather {a : α} (h : gather f xs = .ok found) (ha : a ∈ found) :
    ∃ x ∈ xs, ∃ part, f x = .ok part ∧ a ∈ part := by
  induction xs generalizing found with
  | nil =>
      cases h
      cases ha
  | cons y ys ih =>
      obtain ⟨first, rest, hy, hys, rfl⟩ := gather_cons_eq_ok h
      rcases List.mem_append.mp ha with ha | ha
      · exact ⟨y, by simp, first, hy, ha⟩
      · obtain ⟨x, hx, part, hpart, hmem⟩ := ih hys ha
        exact ⟨x, List.mem_cons_of_mem y hx, part, hpart, hmem⟩

/-- An error is that of the first item that has one. -/
theorem mapM_eq_error_iff {g : β → Except ε γ} : xs.mapM g = .error e ↔
    ∃ before x after ys, xs = before ++ x :: after ∧ before.mapM g = .ok ys ∧ g x = .error e := by
  constructor
  · intro h
    induction xs with
    | nil => cases h
    | cons x xs ih =>
        rw [List.mapM_cons] at h
        rcases hx : g x with e' | y
        · rw [hx] at h
          cases h
          exact ⟨[], x, xs, [], rfl, rfl, hx⟩
        · rcases hxs : xs.mapM g with e' | ys
          · rw [hx, hxs] at h
            cases h
            obtain ⟨before, z, after, ys, rfl, hbefore, hz⟩ := ih hxs
            refine ⟨x :: before, z, after, y :: ys, rfl, ?_, hz⟩
            rw [List.mapM_cons, hx, hbefore]
            rfl
          · rw [hx, hxs] at h
            cases h
  · rintro ⟨before, x, after, ys, rfl, hbefore, hx⟩
    rw [List.mapM_append, hbefore, List.mapM_cons, hx]
    rfl

theorem gather_eq_error_iff : gather f xs = .error e ↔
    ∃ before x after found,
      xs = before ++ x :: after ∧ gather f before = .ok found ∧ f x = .error e := by
  constructor
  · intro h
    rw [gather_eq_flatten] at h
    rcases hxs : xs.mapM f with e' | parts
    · rw [hxs] at h
      cases h
      obtain ⟨before, x, after, parts, rfl, hbefore, hx⟩ := mapM_eq_error_iff.mp hxs
      refine ⟨before, x, after, parts.flatten, rfl, ?_, hx⟩
      rw [gather_eq_flatten, hbefore]
      rfl
    · rw [hxs] at h
      cases h
  · rintro ⟨before, x, after, found, rfl, hbefore, hx⟩
    rw [gather_append_of_ok hbefore, gather_cons_of_error hx]
    rfl

theorem gather_filter_of_ok (h : gather f xs = .ok found) :
    ∃ kept, gather f (xs.filter p) = .ok kept ∧ kept.Sublist found := by
  induction xs generalizing found with
  | nil =>
      cases h
      exact ⟨[], rfl, .slnil⟩
  | cons x xs ih =>
      obtain ⟨first, rest, hx, hxs, rfl⟩ := gather_cons_eq_ok h
      obtain ⟨kept, hkept, hsub⟩ := ih hxs
      rcases hp : p x with _ | _
      · rw [List.filter_cons_of_neg (by simp [hp]), hkept]
        exact ⟨kept, rfl, hsub.trans (List.sublist_append_right first rest)⟩
      · rw [List.filter_cons_of_pos hp, gather_cons_of_ok hx, hkept]
        exact ⟨first ++ kept, rfl, (List.Sublist.refl first).append hsub⟩

/-- Nothing is lost exactly if the items left out contribute nothing. -/
theorem gather_filter_eq_iff (h : gather f xs = .ok found) :
    gather f (xs.filter p) = .ok found ↔ ∀ x ∈ xs, p x = false → f x = .ok [] := by
  induction xs generalizing found with
  | nil =>
      cases h
      simp [gather]
  | cons x xs ih =>
      obtain ⟨first, rest, hx, hxs, rfl⟩ := gather_cons_eq_ok h
      rw [List.forall_mem_cons, hx, ← ih hxs]
      obtain ⟨kept, hkept, hsub⟩ := gather_filter_of_ok (p := p) hxs
      rcases hp : p x with _ | _
      · rw [List.filter_cons_of_neg (by simp [hp]), hkept]
        constructor
        · intro heq
          -- What is left has the length of `rest` at most, so `first` had nothing to add.
          have hlength := congrArg List.length (Except.ok.inj heq)
          have hle := hsub.length_le
          have hfirst : first = [] := by
            apply List.eq_nil_of_length_eq_zero
            rw [List.length_append] at hlength
            omega
          subst hfirst
          exact ⟨fun _ => rfl, heq⟩
        · rintro ⟨hfirst, heq⟩
          cases hfirst rfl
          exact heq
      · rw [List.filter_cons_of_pos hp, gather_cons_of_ok hx, hkept]
        constructor
        · intro heq
          have hrest := List.append_cancel_left (Except.ok.inj heq)
          exact ⟨fun hfalse => absurd hfalse (by simp), congrArg Except.ok hrest⟩
        · rintro ⟨-, heq⟩
          cases heq
          rfl

theorem gather_filter_of_error {before after : List β}
    (hbefore : gather f before = .ok found) (hx : f x = .error e) (hp : p x = true) :
    gather f ((before ++ x :: after).filter p) = .error e := by
  obtain ⟨kept, hkept, -⟩ := gather_filter_of_ok (p := p) hbefore
  rw [List.filter_append, List.filter_cons_of_pos hp, gather_append_of_ok hkept,
    gather_cons_of_error hx]
  rfl

end IndexedQuery
