/-
  CallLang/Store/Basic.lean
  =========================
  **Scopes.**

  A scope binds names to values and may have a parent, which is asked for the
  names that it does not bind itself.  All scopes live in one `Store` and are
  never discarded, for a closure may return to its scope at any time.  Besides
  the scopes, the store counts the closures made so far and collects what
  programs print.

  Writing is always local: `define` changes one scope and never its parent.
  Every scope is created after its parent, so a chain of parents has at most as
  many members as there are scopes, and this number bounds every search.
-/
import CallLang.Expr.Basic
import CallLang.Table
import CallLang.Text.Quoted

namespace CallLang

abbrev Bindings := Table Value

/-- The bindings of one scope and the scope around it. -/
structure Scope where
  parent : Option ScopeId
  bindings : Bindings

/-- All scopes in the order of their creation, the number of closures made, and
    the texts printed. -/
structure Store where
  scopes : Array Scope
  closures : Nat
  printed : Array String

namespace Store

def empty : Store :=
  { scopes := #[], closures := 0, printed := #[] }

/-! ### Searching -/

/-- The value that a name has in a scope or the nearest scope around it that binds
    it, looking at no more than the given number of scopes. -/
def find? (store : Store) (name : String) : Nat → ScopeId → Option Value
  | 0, _ => none
  | reach + 1, id =>
    match store.scopes[id]? with
    | none => none
    | some scope =>
      match scope.bindings.get? name with
      | some value => some value
      | none =>
        match scope.parent with
        | some parent => store.find? name reach parent
        | none => none

def lookup? (store : Store) (id : ScopeId) (name : String) : Option Value :=
  store.find? name store.scopes.size id

/-- The scopes around a scope, the nearest first, no more than the given number. -/
def around (store : Store) : Nat → ScopeId → List ScopeId
  | 0, _ => []
  | reach + 1, id =>
    match store.scopes[id]? with
    | some { parent := some parent, .. } => parent :: store.around reach parent
    | _ => []

/-- The names that a scope itself binds, in the order of their code points. -/
def names (store : Store) (id : ScopeId) : List String :=
  match store.scopes[id]? with
  | some scope => scope.bindings.names.mergeSort fun a b => !decide (b < a)
  | none => []

/-- A description of a scope: its names, and how many scopes are around it. -/
def describe (store : Store) (id : ScopeId) : String :=
  "Scope(names=[" ++ ", ".intercalate ((store.names id).map Text.quoted) ++ "], depth=" ++
    Nat.repr (store.around store.scopes.size id).length ++ ")"

/-! ### Changing -/

/-- Creates a scope and yields its number. -/
def create (store : Store) (parent : Option ScopeId) (bindings : Bindings) : ScopeId × Store :=
  (store.scopes.size, { store with scopes := store.scopes.push { parent, bindings } })

def define (store : Store) (id : ScopeId) (name : String) (value : Value) : Store :=
  { store with
    scopes := store.scopes.modify id fun scope =>
      { scope with bindings := scope.bindings.set name value } }

def print (store : Store) (text : String) : Store :=
  { store with printed := store.printed.push text }

/-- The bindings that every program starts with: the two booleans and the built-in
    functions, which belong to their global scope. -/
def globalBindings (home : ScopeId) : Bindings :=
  ("true", .boolean true) :: ("false", .boolean false) ::
    Builtin.all.map fun function => (function.name, .builtin function home)

def createGlobal (store : Store) : ScopeId × Store :=
  store.create none (globalBindings store.scopes.size)

end Store

end CallLang
