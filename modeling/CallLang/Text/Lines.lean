/-
  CallLang/Text/Lines.lean
  ========================
  **Cutting a text at a character.**

  The pieces of a text between the occurrences of a character are its lines, if
  the character is the line feed, or the components of a path.
-/

namespace CallLang.Text

/-- The pieces between the occurrences of a character.  There is always one more
    than there are occurrences. -/
def splitAtEach (mark : Char) : List Char → List (List Char)
  | [] => [[]]
  | c :: rest =>
    if c = mark then [] :: splitAtEach mark rest
    else
      match splitAtEach mark rest with
      | [] => [[c]]
      | piece :: pieces => (c :: piece) :: pieces

/-- The lines of an input; what follows the last line feed is a line only if it is
    not empty. -/
def inputLines (text : String) : List String :=
  let pieces := splitAtEach '\n' text.toList
  let pieces := if pieces.getLast? = some [] then pieces.dropLast else pieces
  pieces.map String.ofList

end CallLang.Text
