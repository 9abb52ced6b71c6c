import IndexedQuery.Scope

/-!
Contexts answer source expressions. Those that are registered are answered from an index; whenever
the index cannot answer, the whole source is scanned and the condition of the query decides.
-/

namespace IndexedQuery

/-- How a source expression is answered: by the index on `path`, under the key computed by `key`. -/
structure Registration where
  path : Path
  key : Evaluator

structure Context (σ : Type) where
  scope : Scope σ
  /-- The registered expressions, oldest first. None is registered twice. -/
  registrations : List (Expr × Registration)

/-- Computations that may also add to the registrations of a context. An error leaves the context
as it has become. -/
abbrev Extension (σ α : Type) :=
  ExceptT Error (StateM (Context σ × Session σ)) α

namespace Context

variable {σ : Type}

def ofScope (scope : Scope σ) : Context σ :=
  ⟨scope, []⟩

def registration? (c : Context σ) (queried : Expr) : Option Registration :=
  (c.registrations.find? fun entry => entry.1 == queried).map (·.2)

def isIndexed (c : Context σ) (queried : Expr) : Bool :=
  (c.registration? queried).isSome

/-- The index on a field path: the kept one, or else one built from a pass over the whole source.
A failing pass is passed on as it is; a row without a key is an error about the index. -/
def buildIndex (c : Context σ) (path : Path) : Run σ (Index Value Row) := do
  match (← getThe PathCache).get? path with
  | some index =>
      Run.report (.reusedIndex path)
      return index
  | none =>
      let key ← compile [.path path.toRoot] (.path path)
      let index ← Cache.getOrBuild path do
        let pass ← Run.read c.scope.source path.rootName
        Index.build pass fun row => (key.evaluate [.element row]).mapError (.indexKey path.text)
      Run.report (.builtIndex path index.size index.keyCount)
      return index

/-- The index of a registration, which need not have been built yet; an error if some row has no
key. -/
def indexFor (c : Context σ) (path : Path) : Run σ (Except Error (Index Value Row)) := do
  match (← getThe PathCache).get? path with
  | some index => return .ok index
  | none => Run.orKeyError (c.buildIndex path)

def lookup (c : Context σ) (queried : Expr) (r : Registration) (key : Outcome) :
    Run σ Elements := do
  match key with
  | .error e =>
      Run.report (.keyFailed queried r.path e)
      c.scope.scan queried
  | .ok key =>
      match ← c.indexFor r.path with
      | .error e =>
          Run.report (.lookupFailed queried e)
          c.scope.scan queried
      | .ok index =>
          match index.get? key with
          | some rows =>
              Run.report (.hit queried r.path key)
              return .indexed (.start rows)
          | none =>
              Run.report (.miss queried r.path key)
              return .empty

/-- Resolves a source expression without bindings, which a key that depends on them does not
allow. -/
def resolve (c : Context σ) (queried : Expr) : Run σ Elements :=
  match c.registration? queried with
  | none => c.scope.scan queried
  | some r =>
      match r.key.static? with
      | some key => c.lookup queried r key
      | none => throw (.missingBindings queried.text)

/-- Resolves a source expression under the bindings made so far. -/
def resolveUnder (c : Context σ) (queried : Expr) (bindings : List Binding) : Run σ Elements :=
  match c.registration? queried with
  | none => c.scope.scan queried
  | some r => c.lookup queried r (r.key.evaluate bindings)

end Context

namespace Extension

variable {σ α : Type}

/-- A computation that leaves the context alone. -/
def within (act : Run σ α) : Extension σ α := fun (c, s) =>
  let (answer, s) := act s
  (answer, c, s)

def context : Extension σ (Context σ) := do
  return (← get).1

/-- Registers an expression and tells whether it was new. A registration is never replaced. -/
def register (queried : Expr) (r : Registration) : Extension σ Bool := do
  if (← context).isIndexed queried then
    return false
  else
    within (Run.report (.answeredBy queried r.path))
    modify fun (c, s) => ({ c with registrations := c.registrations ++ [(queried, r)] }, s)
    return true

def on (act : Extension σ α) (c : Context σ) : StateM (Session σ) (Except Error α × Context σ) :=
  fun s =>
    let (answer, c, s) := act (c, s)
    ((answer, c), s)

end Extension

end IndexedQuery
