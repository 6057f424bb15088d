/-
  CallLang/Builtin/Apply.lean
  ===========================
  **What the built-in functions do.**

  A built-in function is applied to values.  Sums, differences, products and
  quotients are those of numbers; strings can be joined and compared as well; any
  two values can be tested for equality.  `print` shows a value and returns it,
  `array` gathers its arguments, `length` and `element` take arrays apart.
-/
import CallLang.Store.Action
import CallLang.Value.Display
import CallLang.Value.Equality

namespace CallLang

namespace Builtin

def badOperands (function : Builtin) (strings : Bool) (a b : Value) (place : Option Span) :
    Action Value :=
  Action.fail (.operands function strings a.kind b.kind) place

/-- Applies an operation to two numbers. -/
def arithmetic (function : Builtin) (operation : Number → Number → Option Number)
    (a b : Value) (place : Option Span) : Action Value :=
  match a, b with
  | .number m, .number n =>
    match operation m n with
    | some sum => Action.pure (.number sum)
    | none => Action.stop (.breakdown .beyondDoubles)
  | _, _ => badOperands function false a b place

def sum (a b : Value) (place : Option Span) : Action Value :=
  match a, b with
  | .string s, .string t => Action.pure (.string (s ++ t))
  | .number _, .number _ => arithmetic add Number.add a b place
  | _, _ => badOperands add true a b place

def quotient (a b : Value) (place : Option Span) : Action Value :=
  match a, b with
  | .number m, .number n =>
    match m.div n with
    | .ok number => Action.pure (.number number)
    | .error .byZero => Action.fail .divisionByZero place
    | .error .outOfRange => Action.fail .quotientRange place
  | _, _ => badOperands divide false a b place

/-- Compares numbers by their value or strings by their code points. -/
def comparison (function : Builtin) (numbers : Number → Number → Bool)
    (strings : String → String → Bool) (a b : Value) (place : Option Span) : Action Value :=
  match a, b with
  | .number m, .number n => Action.pure (.boolean (numbers m n))
  | .string s, .string t => Action.pure (.boolean (strings s t))
  | _, _ => badOperands function true a b place

/-- The item of an array at an index, which may be any number that is an integer
    within the array. -/
def item (items : List Value) (index : Number) (place : Option Span) : Action Value :=
  let found := index.toInt?.bind fun n => if n < 0 then none else items[n.toNat]?
  match found with
  | some value => Action.pure value
  | none =>
    match index.display with
    | .ok shown => Action.fail (.indexRange shown items.length) place
    | .error cause => Action.stop (.breakdown cause)

/-- Applies a built-in function.  The limit bounds how deep it looks into arrays, and
    the place is that of the call. -/
def apply (limit : Nat) (place : Option Span) : Builtin → List Value → Action Value
  | add, [a, b] => sum a b place
  | subtract, [a, b] => arithmetic subtract Number.sub a b place
  | multiply, [a, b] => arithmetic multiply Number.mul a b place
  | divide, [a, b] => quotient a b place
  | equal, [a, b] =>
    Action.bind (Action.ofBreakdown (Value.equal limit a b)) fun answer =>
    Action.pure (.boolean answer)
  | less, [a, b] => comparison less Number.lt (fun s t => s < t) a b place
  | greater, [a, b] =>
    comparison greater (fun m n => n.lt m) (fun s t => t < s) a b place
  | print, [value] =>
    Action.bind (Action.ofBreakdown (Value.display limit false value)) fun text =>
    Action.bind (Action.print text) fun _ =>
    Action.pure value
  | array, items => Action.pure (.array items)
  | length, [value] =>
    match value with
    | .array items => Action.pure (.int items.length)
    | _ => Action.fail (.lengthOf value.kind) place
  | element, [value, index] =>
    match value, index with
    | .array items, .number n => item items n place
    | .array _, _ => Action.fail (.indexKind index.kind) place
    | _, _ => Action.fail (.elementOf value.kind) place
  | function, arguments =>
    Action.fail (.argumentCount function.name (function.arity.getD 0) arguments.length) place

end Builtin

end CallLang
