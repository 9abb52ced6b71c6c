import IndexedQuery.Context.Discovery

/-!
Context trees: contexts that were specialized from one another and answer from one cache. Contexts
are numbered in the order in which they came into being.
-/

namespace IndexedQuery

structure ContextTree (σ : Type) where
  contexts : List (Context σ)
  session : Session σ

namespace ContextTree

variable {σ α : Type}

def ofScope (scope : Scope σ) (source : σ) : ContextTree σ :=
  ⟨[.ofScope scope], .start source⟩

abbrev Handle (t : ContextTree σ) := Fin t.contexts.length

/-- Runs a computation that leaves all contexts as they are. -/
def run (t : ContextTree σ) (act : Run σ α) : Except Error α × ContextTree σ :=
  let (answer, session) := act t.session
  (answer, { t with session })

/-- Runs a computation that may add to the registrations of one context. -/
def extend (t : ContextTree σ) (h : t.Handle) (act : Extension σ α) :
    Except Error α × ContextTree σ :=
  let ((answer, c), session) := act.on t.contexts[h] t.session
  (answer, ⟨t.contexts.set h c, session⟩)

/-- Adds the context specialized for a condition and gives its number. Without a condition it is
the context that is there already. -/
def specialize (t : ContextTree σ) (h : t.Handle) (condition : Option Expr) :
    Except Error Nat × ContextTree σ :=
  if condition.isNone then (.ok h, t)
  else
    match t.contexts[h].specialize condition t.session with
    | (.ok c, session) => (.ok t.contexts.length, ⟨t.contexts ++ [c], session⟩)
    | (.error e, session) => (.error e, { t with session })

def discover (t : ContextTree σ) (h : t.Handle) (condition : Expr) :
    Except Error Nat × ContextTree σ :=
  t.extend h (.discover condition)

/-- Registers an expression under a key that is compiled against the sources in scope. -/
def register (t : ContextTree σ) (h : t.Handle) (queried : Expr) (path : Path) (key : Expr) :
    Except Error Bool × ContextTree σ :=
  t.extend h do
    let evaluator ← compile t.contexts[h].scope.sources key
    .register queried ⟨path, evaluator⟩

def scan (t : ContextTree σ) (h : t.Handle) (e : Expr) : Except Error Elements × ContextTree σ :=
  t.run (t.contexts[h].scope.scan e)

def resolve (t : ContextTree σ) (h : t.Handle) (e : Expr) :
    Except Error Elements × ContextTree σ :=
  t.run (t.contexts[h].resolve e)

def resolveUnder (t : ContextTree σ) (h : t.Handle) (e : Expr) (bindings : List Binding) :
    Except Error Elements × ContextTree σ :=
  t.run (t.contexts[h].resolveUnder e bindings)

def buildIndex (t : ContextTree σ) (h : t.Handle) (path : Path) :
    Except Error (Index Value Row) × ContextTree σ :=
  t.run (t.contexts[h].buildIndex path)

/-- Passes over the source of a path and counts what comes. -/
def countPass (t : ContextTree σ) (h : t.Handle) (path : Path) :
    Except Error Nat × ContextTree σ :=
  t.run do return (← Run.read t.contexts[h].scope.source path.rootName).length

end ContextTree

end IndexedQuery
