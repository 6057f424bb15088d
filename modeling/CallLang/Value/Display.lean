/-
  CallLang/Value/Display.lean
  ===========================
  **How values are shown.**

  Programs print values and messages quote them in one notation: integers and
  integral doubles as digits, other doubles in decimal notation, arrays in square
  brackets.  A string is shown as it is, and between quotation marks inside an
  array.  An integer of too many digits cannot be shown, nor can arrays nested
  deeper than the recursion limit.
-/
import CallLang.Expr.Dump

namespace CallLang

/-- An integer in decimal digits, unless it has too many. -/
def Number.writeInt (n : Int) : Except Breakdown String :=
  if n.natAbs < tooLong then .ok (Text.ofInt n) else .error .longInteger

/-- A number as it is shown.  A double without fractional part is shown as the
    integer that it equals, so that no zero shows a sign. -/
def Number.display : Number → Except Breakdown String
  | .int n => writeInt n
  | .double x =>
    match x.toInt? with
    | some n => writeInt n
    | none => .ok x.write

/-- A closure as it is shown: its parameters tell it apart best. -/
def Value.signature (parameters : List String) : String :=
  "fun(" ++ commaSeparated parameters ++ ")"

/-- A value as it is shown, by itself or nested in an array. -/
def Value.display : Nat → Bool → Value → Except Breakdown String
  | 0, _, _ => .error .tooDeep
  | limit + 1, nested, value =>
    match value with
    | .number n => n.display
    | .string text => .ok (if nested then "\"" ++ text ++ "\"" else text)
    | .boolean b => .ok (if b then "true" else "false")
    | .array items => do
      let texts ← items.mapM (Value.display limit true)
      return "[" ++ commaSeparated texts ++ "]"
    | .closure _ parameters _ _ => .ok (signature parameters)
    | .builtin function _ => .ok ("<builtin " ++ function.name ++ ">")

end CallLang
