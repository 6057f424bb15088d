/-
  CallLang/Fault/Stop.lean
  ========================
  **Why work stops early.**

  Reading and evaluating a program stop early for a `Mistake` of the program,
  for a `Breakdown`, which is a limit of the interpreter rather than a fault of
  the program, or because the rounds allowed to a loop are used up.  The tools
  around them can besides be interrupted or told to exit, and complain about
  things that are no programs; what ends their work is an `Ending`.
-/
import CallLang.Fault.Mistake
import CallLang.Message.Template
import CallLang.Text.Quoted
import CallLang.Text.Utf8

namespace CallLang

/-- The most digits that a numeral may have, and a written integer. -/
def maxDigits : Nat := 4300

/-- A limit of the interpreter, or a failure that it does not explain. -/
inductive Breakdown where
  /-- Something nests deeper than the recursion limit. -/
  | tooDeep
  /-- An integer beyond the range of doubles meets a double. -/
  | beyondDoubles
  /-- A numeral has more digits than are read. -/
  | longNumeral (digits : Nat)
  /-- An integer has more digits than are written. -/
  | longInteger
  /-- A hole was asked where it stands. -/
  | noPlace
  | noSource
  | noResult
  | undecodable (fault : Text.Undecodable)
  | nullInPath
  | template (fault : TemplateFault)
  /-- Any other failure, by the name of its kind and its text. -/
  | other (name text : String)
deriving DecidableEq, Repr

namespace Breakdown

/-- The name of the kind of a breakdown, as internal reports show it. -/
def name : Breakdown → String
  | tooDeep => "RecursionError"
  | beyondDoubles => "OverflowError"
  | longNumeral _ | longInteger | nullInPath => "ValueError"
  | noPlace => "AttributeError"
  | noSource => "TypeError"
  | noResult => "IndexError"
  | undecodable _ => "UnicodeDecodeError"
  | template (.missingArgument _) => "IndexError"
  | template (.unknownName _) => "KeyError"
  | template _ => "ValueError"
  | other name _ => name

def malformation : Text.Malformation → String
  | .start => "invalid start byte"
  | .continuation => "invalid continuation byte"
  | .truncated => "unexpected end of data"

/-- How the digits beyond the limit are spoken of, with their number if it is
    known. -/
def digitLimit (number : String) : String :=
  "Exceeds the limit (" ++ Nat.repr maxDigits ++ " digits) for integer string conversion" ++
    number ++ "; use sys.set_int_max_str_digits() to increase the limit"

def text : Breakdown → String
  | tooDeep => "maximum recursion depth exceeded"
  | beyondDoubles => "int too large to convert to float"
  | longNumeral digits => digitLimit (": value has " ++ Nat.repr digits ++ " digits")
  | longInteger => digitLimit ""
  | noPlace => "'Expression' object has no attribute 'start'"
  | noSource => "expected string or bytes-like object, got 'list'"
  | noResult => "pop from empty list"
  | undecodable fault =>
    let bytes :=
      if fault.length = 1 then
        "byte 0x" ++ String.ofList (Text.hexDigits 2 fault.byte) ++ " in position " ++
          Nat.repr fault.offset
      else
        "bytes in position " ++ Nat.repr fault.offset ++ "-" ++
          Nat.repr (fault.offset + fault.length - 1)
    "'utf-8' codec can't decode " ++ bytes ++ ": " ++ malformation fault.reason
  | nullInPath => "embedded null byte"
  | template .loneOpening => "Single '\x7b' encountered in format string"
  | template .loneClosing => "Single '\x7d' encountered in format string"
  | template .nestedOpening => "unexpected '\x7b' in field name"
  | template .unclosedSlot => "expected '\x7d' before end of string"
  | template (.missingArgument index) =>
    "Replacement index " ++ Nat.repr index ++ " out of range for positional args tuple"
  | template .numberedAfterPlain =>
    "cannot switch from automatic field numbering to manual field specification"
  | template .plainAfterNumbered =>
    "cannot switch from manual field specification to automatic field numbering"
  | template (.unknownName name) => Text.quoted name
  | template .hugeNumber => "Too many decimal digits in format string"
  | other _ text => text

end Breakdown

/-- Why reading or evaluating a program yields nothing. -/
inductive Stop where
  | mistake (cause : Mistake) (span : Option Span)
  | breakdown (cause : Breakdown)
  /-- A loop has used up the rounds allowed to it. -/
  | unfinished
deriving DecidableEq, Repr

/-- Why a tool's work yields nothing. -/
inductive Ending where
  | complaint (complaint : Complaint)
  | breakdown (cause : Breakdown)
  | interrupt
  /-- The program is to end with this status, if one is given. -/
  | exit (status : Option Int)
  | unfinished
deriving DecidableEq, Repr

def Mistake.at (mistake : Mistake) (span : Option Span) : Complaint :=
  mistake.complaint (span.map fun s => s.start) (span.map fun s => s.stop)

/-- A program that stops early ends the work on it. -/
def Stop.ending : Stop → Ending
  | .mistake cause span => .complaint (cause.at span)
  | .breakdown cause => .breakdown cause
  | .unfinished => .unfinished

end CallLang
