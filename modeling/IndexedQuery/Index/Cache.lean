import IndexedQuery.Index

/-!
The cache of built indexes. An index is built when it is first asked for and kept for good; a build
may itself ask the cache for indexes, its own included, and then the index kept first stays.
-/

namespace IndexedQuery

structure Cache (π κ α : Type) where
  /-- The kept indexes, oldest first. -/
  entries : List (π × Index κ α)
  /-- How many builds have been kept. -/
  builds : Nat

namespace Cache

variable {π κ α : Type}

def empty : Cache π κ α :=
  ⟨[], 0⟩

def size (cache : Cache π κ α) : Nat :=
  cache.entries.length

def paths (cache : Cache π κ α) : List π :=
  cache.entries.map (·.1)

variable [BEq π]

def get? (cache : Cache π κ α) (path : π) : Option (Index κ α) :=
  (cache.entries.find? fun entry => entry.1 == path).map (·.2)

def contains (cache : Cache π κ α) (path : π) : Bool :=
  (cache.get? path).isSome

/-- Keeps a freshly built index unless one is already kept for its path. Returns the index kept. -/
def keep (cache : Cache π κ α) (path : π) (index : Index κ α) : Index κ α × Cache π κ α :=
  match cache.get? path with
  | some kept => (kept, cache)
  | none => (index, ⟨cache.entries ++ [(path, index)], cache.builds + 1⟩)

/-- The index for a path, built only if none is kept. A build that fails adds nothing itself. -/
def getOrBuild {m : Type → Type} [Monad m] [MonadStateOf (Cache π κ α) m]
    (path : π) (build : m (Index κ α)) : m (Index κ α) := do
  match (← getThe (Cache π κ α)).get? path with
  | some index => return index
  | none =>
      let index ← build
      modifyGetThe (Cache π κ α) (·.keep path index)

end Cache

/-- A build that asks the cache for indexes on its way, and may ask for different ones depending on
the answers. -/
inductive Build (ε π κ α : Type) where
  | done (result : Except ε (Index κ α))
  | ask (path : π) (build : Build ε π κ α) (next : Except ε (Index κ α) → Build ε π κ α)

namespace Build

variable {ε π κ α : Type} [BEq π]

def run : Build ε π κ α → ExceptT ε (StateM (Cache π κ α)) (Index κ α)
  | .done result => liftExcept result
  | .ask path build next => fun cache =>
      let (answer, cache) := (Cache.getOrBuild path build.run).run cache
      (next answer).run cache

end Build

end IndexedQuery
