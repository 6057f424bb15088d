/-
  CallLang/Fault/Mistake.lean
  ===========================
  **Mistakes in programs.**

  Every way in which a program can be wrong is one cause of the type `Mistake`:
  in its text, in the operands of a form, in a name, in the kinds or numbers of
  values.  `Mistake.category` and `Mistake.message` are the only places that
  know how a cause is worded.
-/
import CallLang.Expr.Basic
import CallLang.Fault.Complaint

namespace CallLang

/-- The cause of a complaint about a program. -/
inductive Mistake where
  /-- An expression is expected where the text ends. -/
  | endOfText
  /-- An expression is expected, and the line goes on with something else. -/
  | unexpected (line : String)
  /-- A comma is followed by the end of the arguments. -/
  | nothingAfterComma
  /-- The text ends between the arguments of a call. -/
  | openCall
  | missingSeparator
  | textAfterProgram
  | formArity (form : Form) (expected got : Nat)
  /-- A definition is not of one name with one value. -/
  | badDefinition
  | missingBody
  | badParameter
  | unbound (name : String)
  | argumentCount (function : String) (expected got : Nat)
  | notFunction (kind : Kind) (shown : String)
  /-- An operator got operands of the wrong kinds; some take strings as well. -/
  | operands (function : Builtin) (strings : Bool) (left right : Kind)
  | lengthOf (kind : Kind)
  | elementOf (kind : Kind)
  | indexKind (kind : Kind)
  | divisionByZero
  /-- A quotient lies beyond the range of doubles. -/
  | quotientRange
  /-- An array has no element of this index. -/
  | indexRange (shown : String) (length : Nat)
  | hole
deriving DecidableEq, Repr

namespace Mistake

def category : Mistake → Category
  | endOfText | unexpected _ | nothingAfterComma | openCall | missingSeparator
  | textAfterProgram | formArity .. | badDefinition | missingBody | badParameter => .grammar
  | unbound _ => .reference
  | argumentCount .. | notFunction .. | operands .. | lengthOf _ | elementOf _
  | indexKind _ => .kind
  | divisionByZero | quotientRange | indexRange .. => .range
  | hole => .general

/-- A message about one emphasised piece. -/
def about (before piece : String) (after : String) : Message :=
  [.plain before, .emphasised piece, .plain after]

def message : Mistake → Message
  | endOfText => [.plain "unexpected end of input"]
  | unexpected line => about "unexpected syntax: '" line "'"
  | nothingAfterComma => [.plain "expected expression after ','"]
  | openCall => [.plain "unexpected end of input, expected ',' or ')'"]
  | missingSeparator => [.plain "expected ',' or ')'"]
  | textAfterProgram => [.plain "unexpected text after program"]
  | formArity form expected got =>
    about "wrong number of arguments to '" form.word "': expected " ++
      about "" (Nat.repr expected) ", got " ++ about "" (Nat.repr got) ""
  | badDefinition => [.plain "incorrect use of define"]
  | missingBody => [.plain "functions need a body"]
  | badParameter => [.plain "parameter names must be words"]
  | unbound name => about "undefined binding: '" name "'"
  | argumentCount function expected got =>
    about "'" function "' expects " ++
      about "" (Nat.repr expected) " argument(s), got " ++ about "" (Nat.repr got) ""
  | notFunction kind shown =>
    about "applying a non-function (" kind.word " '" ++ about "" shown "')"
  | operands function strings left right =>
    about "'" function.name "' expects " ++
      about "" (if strings then "numbers or strings" else "numbers") ", got " ++
      about "" left.word " and " ++ about "" right.word ""
  | lengthOf kind => about "argument to length must be an array, got " kind.word ""
  | elementOf kind => about "first argument to element must be an array, got " kind.word ""
  | indexKind kind => about "second argument to element must be a number, got " kind.word ""
  | divisionByZero => [.plain "division by zero"]
  | quotientRange => [.plain "division result out of range"]
  | indexRange shown length =>
    about "index " shown " out of range for array of length " ++
      about "" (Nat.repr length) ""
  | hole => about "cannot evaluate '" "Expression()" "'"

/-- The complaint about a cause at given offsets.  A hole is not the programmer's
    fault, so it is reported as internal. -/
def complaint (mistake : Mistake) (start stop : Option Int) : Complaint :=
  { Complaint.located mistake.category mistake.message start stop with
    internal := mistake = hole }

end Mistake

end CallLang
