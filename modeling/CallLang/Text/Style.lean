/-
  CallLang/Text/Style.lean
  ========================
  **Emphasis.**

  On a terminal that shows colour, quoted expressions are bold, errors bold and
  red, warnings bold and magenta.  Without colour a style leaves its text as it
  is, so colour decorates a report and never changes its words.
-/

namespace CallLang.Text

/-- How a piece of a report is emphasised. -/
inductive Style where
  | bold
  | error
  | warning
deriving DecidableEq, Repr

/-- The control sequence that selects one rendition of a terminal. -/
def rendition (code : Nat) : String :=
  "\x1b[" ++ Nat.repr code ++ "m"

/-- The renditions of a style: bold is 1, red 31, magenta 35. -/
def Style.codes : Style → List Nat
  | .bold => [1]
  | .error => [1, 31]
  | .warning => [1, 35]

/-- The text in a style; 0 ends every rendition. -/
def Style.paint (color : Bool) (style : Style) (text : String) : String :=
  if color then String.join (style.codes.map rendition) ++ text ++ rendition 0 else text

end CallLang.Text
