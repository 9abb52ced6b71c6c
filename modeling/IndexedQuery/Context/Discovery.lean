import IndexedQuery.Context

/-!
Discovery walks a condition and registers every source that an equality pins to a single key. It
descends through conjunctions only: elsewhere an equality does not restrict the source by itself.
-/

namespace IndexedQuery

variable {σ : Type}

/-- Whether all sources that `key` reads are bound before the one in `slot`. -/
def Expr.boundBefore (key : Expr) (sources : List Expr) (slot : Nat) : Bool :=
  key.rootsRead.all fun root => (rootSlot? sources root).any (· < slot)

/-- What is known of an equality of `target` with `key` before any index is built. -/
inductive Assessment where
  /-- The target is no field of a source in scope, or its source is registered already. -/
  | unsuitable
  /-- The key does not compile, or is not known whenever the source is iterated. -/
  | rejected (reason : Event)
  /-- An index on `path` may answer for its source under `key`. -/
  | eligible (path : Path) (key : Evaluator)

def Context.assess (c : Context σ) (target key : Expr) : Assessment :=
  match target with
  | .path (.field source name index) =>
      let path := .field source name index
      let queried := .path (.root source)
      match rootSlot? c.scope.sources source with
      | none => .unsuitable
      | some slot =>
          if c.isIndexed queried then .unsuitable
          else if key.boundBefore c.scope.sources slot then
            match compile c.scope.sources key with
            | .ok evaluator => .eligible path evaluator
            | .error e => .rejected (.keyNotCompiled path key e)
          else .rejected (.keyNotBound path key queried)
  | _ => .unsuitable

namespace Extension

/-- Registers the source of `target` under `key` if an index can answer it, which takes that every
row has the field. Tells whether it did. -/
def pin (target key : Expr) : Extension σ Bool := do
  let c ← context
  match c.assess target key with
  | .unsuitable => return false
  | .rejected reason =>
      within (Run.report reason)
      return false
  | .eligible path evaluator =>
      match ← within (Run.orKeyError (c.buildIndex path)) with
      | .error e =>
          within (Run.report (.notIndexable path e))
          return false
      | .ok _ => register (.path path.toRoot) ⟨path, evaluator⟩

mutual

/-- Registers what the condition pins down, an equality in either orientation, and counts the new
registrations. A source that fails while an index is built ends the walk. -/
def discover : Expr → Extension σ Nat
  | .operation op args => do
      let registry := (← context).scope.registry
      if registry.isConjunction op then
        discoverAll args
      else if registry.isEquality op then
        match args with
        | [left, right] =>
            if ← pin left right then
              return 1
            else if ← pin right left then
              return 1
            else
              return 0
        | _ => return 0
      else
        return 0
  | _ => return 0

def discoverAll : List Expr → Extension σ Nat
  | [] => return 0
  | e :: es => do
      let n ← discover e
      return n + (← discoverAll es)

end

end Extension

/-- The context for queries under a condition. Without a condition it is the context itself, else
a new one that starts without registrations and gets those discovered in the condition. -/
def Context.specialize (c : Context σ) : Option Expr → Run σ (Context σ)
  | none => return c
  | some condition => do
      let child := Context.ofScope c.scope
      if c.scope.config.enabled && condition.isOperation then
        let (answer, child) ← (Extension.discover condition).on child
        Run.report (.specialized condition (← answer))
        return child
      else
        return child

end IndexedQuery
