/-
  CallLang/Builtin/Basic.lean
  ===========================
  **The built-in functions.**

  Every program starts with these functions bound to their names.  Names that
  are operators elsewhere are ordinary names here: a sum is written `+(1, 2)`.
-/

namespace CallLang

/-- A function that the language provides. -/
inductive Builtin where
  | add
  | subtract
  | multiply
  | divide
  | equal
  | less
  | greater
  | print
  | array
  | length
  | element
deriving DecidableEq, Repr

namespace Builtin

/-- All of them, in the order in which they are bound. -/
def all : List Builtin :=
  [add, subtract, multiply, divide, equal, less, greater, print, array, length, element]

theorem mem_all (b : Builtin) : b ∈ all := by
  cases b <;> decide

def name : Builtin → String
  | add => "+"
  | subtract => "-"
  | multiply => "*"
  | divide => "/"
  | equal => "=="
  | less => "<"
  | greater => ">"
  | print => "print"
  | array => "array"
  | length => "length"
  | element => "element"

/-- The number of arguments that it takes, unless any number will do. -/
def arity : Builtin → Option Nat
  | print | length => some 1
  | array => none
  | _ => some 2

def ofName? (name : String) : Option Builtin :=
  all.find? fun b => b.name == name

end Builtin

end CallLang
