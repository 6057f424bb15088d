/-
  CallLang/Expr/Basic.lean
  ========================
  **Expressions and values.**

  A program is one expression: a literal, a name, or a call of an operator with
  arguments, the operator being an expression itself.  Every node knows the
  `Span` of the text that it was read from.

  Expressions and values are defined together.  A function keeps its body, which
  is an expression, and a literal holds its value, so that trees can also be
  built around values that have no literal notation.
-/
import CallLang.Builtin.Basic
import CallLang.Double.Basic
import CallLang.Form
import CallLang.Number

namespace CallLang

/-- The characters from `start` up to, but without, `stop`. -/
structure Span where
  start : Nat
  stop : Nat
deriving DecidableEq, Repr, Inhabited

/-- Scopes are numbered in the order of their creation. -/
abbrev ScopeId := Nat

mutual

/-- A node of a program.  A `hole` stands where an expression is missing; no text
    is read as one. -/
inductive Expr where
  | literal (value : Value) (span : Span)
  | name (text : String) (span : Span)
  | call (operator : Expr) (arguments : List Expr) (span : Span)
  | hole

/-- What an expression can evaluate to.  A `closure` is a function of the program
    with the scope in which it was made; its number tells it from every other
    closure.  A `builtin` belongs to the global scope that binds it. -/
inductive Value where
  | number (n : Number)
  | string (text : String)
  | boolean (b : Bool)
  | array (items : List Value)
  | closure (id : Nat) (parameters : List String) (body : Expr) (scope : ScopeId)
  | builtin (function : Builtin) (home : ScopeId)

end

instance : Inhabited Expr := ⟨.hole⟩

instance : Inhabited Value := ⟨.boolean false⟩

abbrev Value.int (n : Int) : Value := .number (.int n)

abbrev Value.double (x : Double) : Value := .number (.double x)

namespace Expr

/-- Where a node was read.  A hole was read nowhere. -/
def span : Expr → Span
  | .literal _ span => span
  | .name _ span => span
  | .call _ _ span => span
  | .hole => ⟨0, 0⟩

/-- The nodes directly below a node, in the order of the text. -/
def children : Expr → List Expr
  | .call operator arguments _ => operator :: arguments
  | _ => []

def form? : Expr → Option Form
  | .name text _ => Form.ofWord? text
  | _ => none

end Expr

inductive Kind where
  | boolean
  | number
  | string
  | array
  | function
deriving DecidableEq, Repr

def Kind.word : Kind → String
  | .boolean => "boolean"
  | .number => "number"
  | .string => "string"
  | .array => "array"
  | .function => "function"

namespace Value

def kind : Value → Kind
  | .number _ => .number
  | .string _ => .string
  | .boolean _ => .boolean
  | .array _ => .array
  | .closure .. => .function
  | .builtin .. => .function

/-- Everything counts as true except the boolean false. -/
def isTrue : Value → Bool
  | .boolean false => false
  | _ => true

end Value

end CallLang
