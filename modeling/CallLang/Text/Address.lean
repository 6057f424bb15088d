/-
  CallLang/Text/Address.lean
  ==========================
  **Line and column of an offset.**

  Offsets count characters from the start of a text.  A reader of an error wants
  the line, its number and the column instead.  `Address.of` computes them from
  the characters before the offset and those from it on; `slice` cuts a piece
  out of a line.
-/

namespace CallLang.Text

/-- A place in a text: the line it is on, the number of that line counted from
    one, and the characters before it on the line. -/
structure Address where
  line : String
  number : Nat
  column : Nat
deriving DecidableEq, Repr

/-- The offset as a position of the text: one before the text is its start, one
    behind it its end. -/
def clamp (length : Nat) (offset : Int) : Nat :=
  min offset.toNat length

/-- The address of an offset.  The line goes back and forth from the offset to
    the nearest line feeds, and its number is one more than the line feeds
    passed. -/
def Address.of (text : List Char) (offset : Int) : Address :=
  let place := clamp text.length offset
  let before := text.take place
  let left := (before.reverse.takeWhile (· ≠ '\n')).reverse
  let right := (text.drop place).takeWhile (· ≠ '\n')
  { line := String.ofList (left ++ right)
    number := before.count '\n' + 1
    column := left.length }

/-- A position given by an integer: a negative one counts from the end, and none
    leaves the text. -/
def position (length : Nat) (index : Int) : Nat :=
  if index < 0 then (index + length).toNat else min index.toNat length

/-- The piece of a text between two positions, empty if they are out of order. -/
def slice (text : List Char) (start stop : Int) : List Char :=
  (text.take (position text.length stop)).drop (position text.length start)

def upTo (text : List Char) (stop : Int) : List Char :=
  text.take (position text.length stop)

def onFrom (text : List Char) (start : Int) : List Char :=
  text.drop (position text.length start)

end CallLang.Text
