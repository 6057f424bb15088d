/-
  CallLang/Store/Action.lean
  ==========================
  **Actions on the store.**

  Evaluation reads and changes the store and may stop early.  What it has done to
  the store until then remains, so an `Action` yields a store in either case.
-/
import CallLang.Fault.Stop
import CallLang.Store.Basic

namespace CallLang

/-- A computation that takes the store along and yields a value or the reason why it
    has stopped. -/
abbrev Action (α : Type) := Store → Except Stop α × Store

namespace Action

variable {α β : Type}

/-- Yields a value and leaves the store as it is. -/
@[always_inline, inline]
def pure (a : α) : Action α := fun store => (.ok a, store)

/-- One action after another, the second depending on the value of the first and
    dropped if the first has stopped. -/
@[always_inline, inline]
def bind (first : Action α) (second : α → Action β) : Action β := fun store =>
  match first store with
  | (.ok a, store) => second a store
  | (.error stop, store) => (.error stop, store)

@[always_inline, inline]
def stop (reason : Stop) : Action α := fun store => (.error reason, store)

@[always_inline, inline]
def fail (cause : Mistake) (span : Option Span) : Action α := stop (.mistake cause span)

/-- A result that does not depend on the store. -/
@[always_inline, inline]
def ofExcept (result : Except Stop α) : Action α := fun store => (result, store)

/-- A result that only a limit of the interpreter can keep from coming. -/
@[always_inline, inline]
def ofBreakdown : Except Breakdown α → Action α
  | .ok a => pure a
  | .error cause => stop (.breakdown cause)

@[always_inline, inline]
def create (parent : Option ScopeId) (bindings : Bindings) : Action ScopeId := fun store =>
  let (id, store) := store.create parent bindings
  (.ok id, store)

@[always_inline, inline]
def define (id : ScopeId) (name : String) (value : Value) : Action Unit := fun store =>
  (.ok (), store.define id name value)

@[always_inline, inline]
def print (text : String) : Action Unit := fun store => (.ok (), store.print text)

/-- The value that a name has in a scope; a name without one is a mistake. -/
@[always_inline, inline]
def lookup (id : ScopeId) (name : String) (span : Span) : Action Value := fun store =>
  match store.lookup? id name with
  | some value => (.ok value, store)
  | none => (.error (.mistake (.unbound name) (some span)), store)

/-- Makes a closure, which no other closure is the same as. -/
@[always_inline, inline]
def close (parameters : List String) (body : Expr) (scope : ScopeId) : Action Value := fun store =>
  (.ok (.closure store.closures parameters body scope),
    { store with closures := store.closures + 1 })

end Action

end CallLang
