import IndexedQuery.Event
import IndexedQuery.Index.Cache
import IndexedQuery.Source

/-!
Sessions: what lasts from one query to the next, and the monad of everything that runs in one. An
error ends a computation but leaves the session as it has become.
-/

namespace IndexedQuery

abbrev PathCache := Cache Path Value Row

structure Session (σ : Type) where
  source : σ
  cache : PathCache
  /-- The collections passed over, the last one first. -/
  passes : List String
  /-- What was reported, the last event first. -/
  log : List Event

def Session.start {σ : Type} (source : σ) : Session σ :=
  ⟨source, .empty, [], []⟩

def Session.passCount {σ : Type} (s : Session σ) (collection : String) : Nat :=
  s.passes.count collection

/-- The collections that passes were begun over, each once. -/
def Session.passed {σ : Type} (s : Session σ) : List String :=
  s.passes.eraseDups

abbrev Run (σ α : Type) :=
  ExceptT Error (StateM (Session σ)) α

namespace Run

variable {σ : Type}

/-- The cache is the part of the session that `Cache.getOrBuild` works on. -/
instance : MonadStateOf PathCache (ExceptT Error (StateM (Session σ))) where
  get := fun s => (.ok s.cache, s)
  set cache := fun s => (.ok ⟨⟩, { s with cache })
  modifyGet f := fun s =>
    let (a, cache) := f s.cache
    (.ok a, { s with cache })

def report (e : Event) : Run σ Unit := fun s =>
  (.ok (), { s with log := e :: s.log })

/-- What a computation gives, the error that some row has no key among its answers. -/
def orKeyError {α : Type} (act : Run σ α) : Run σ (Except Error α) :=
  tryCatch (.ok <$> act) fun
    | .indexKey path cause => return .error (.indexKey path cause)
    | e => throw e

/-- Begins a pass over a collection. -/
def read (source : Source σ) (collection : String) : Run σ Pass := fun s =>
  let (answer, state) := source.pass s.source collection
  (answer, { s with source := state, passes := collection :: s.passes })

end Run

end IndexedQuery
