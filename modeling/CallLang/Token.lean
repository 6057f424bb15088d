/-
  CallLang/Token.lean
  ===================
  **Tokens.**

  A program text is a sequence of tokens with blanks and comments between them.
  `lexemes` lists the tokens with the places where they stand; it never fails,
  for a quotation mark without a partner is a token too, and it is the last one.

  A text without any token is silent (`isSilent`): there is nothing in it to be
  run.
-/
import CallLang.Text.Blank

namespace CallLang

/-- A smallest meaningful piece of a program. -/
inductive Token where
  | opening
  | closing
  | comma
  /-- The characters between two quotation marks. -/
  | text (contents : List Char)
  /-- Digits that no letter, digit or underscore follows. -/
  | numeral (digits : List Char)
  /-- Any other run of characters that are neither blank nor punctuation. -/
  | word (name : List Char)
  /-- A quotation mark that no other follows. -/
  | unclosed
deriving DecidableEq, Repr

/-- A token with the place of its first character and the place behind its
    last. -/
structure Lexeme where
  token : Token
  start : Nat
  stop : Nat
deriving DecidableEq, Repr

/-- The characters that end a word besides blanks. -/
def isPunctuation (c : Char) : Bool :=
  c = '(' || c = ')' || c = ',' || c = '#' || c = '"'

/-- A word goes on as long as neither a blank nor punctuation comes. -/
def isWordChar (c : Char) : Bool :=
  !Text.isBlank c && !isPunctuation c

/-- Whether the character after digits makes them part of a word.  Only ASCII
    letters and the underscore do. -/
def joinsDigits (c : Char) : Bool :=
  c.isAlphanum || c = '_'

def Token.ofMark? (c : Char) : Option Token :=
  if c = '(' then some .opening
  else if c = ')' then some .closing
  else if c = ',' then some .comma
  else none

/-- The tokens of a text whose first character stands at a place.  A comment runs
    to the end of its line. -/
def lexemesFrom (place : Nat) : List Char → List Lexeme
  | [] => []
  | c :: rest =>
    if Text.isBlank c then lexemesFrom (place + 1) rest
    else if c = '#' then
      let comment := rest.takeWhile (· ≠ '\n')
      lexemesFrom (place + 1 + comment.length) (rest.dropWhile (· ≠ '\n'))
    else if c = '"' then
      let contents := rest.takeWhile (· ≠ '"')
      let stop := place + 1 + contents.length
      match h : rest.dropWhile (· ≠ '"') with
      | [] => [{ token := .unclosed, start := place, stop }]
      | _ :: after =>
        { token := .text contents, start := place, stop := stop + 1 } ::
          lexemesFrom (stop + 1) after
    else
      match Token.ofMark? c with
      | some token =>
        { token, start := place, stop := place + 1 } :: lexemesFrom (place + 1) rest
      | none =>
        let digits := rest.takeWhile Char.isDigit
        if c.isDigit && !((rest.dropWhile Char.isDigit).head?.any joinsDigits) then
          let stop := place + 1 + digits.length
          { token := .numeral (c :: digits), start := place, stop } ::
            lexemesFrom stop (rest.dropWhile Char.isDigit)
        else
          let name := rest.takeWhile isWordChar
          let stop := place + 1 + name.length
          { token := .word (c :: name), start := place, stop } ::
            lexemesFrom stop (rest.dropWhile isWordChar)
termination_by text => text.length
decreasing_by
  all_goals simp only [List.length_cons]
  · omega
  · have := (List.dropWhile_sublist (l := rest) (fun x => decide (x ≠ '\n'))).length_le
    omega
  · have := (List.dropWhile_sublist (l := rest) (fun x => decide (x ≠ '"'))).length_le
    rw [h, List.length_cons] at this
    omega
  · omega
  · have := (List.dropWhile_sublist (l := rest) Char.isDigit).length_le
    omega
  · have := (List.dropWhile_sublist (l := rest) isWordChar).length_le
    omega

def lexemes (text : String) : List Lexeme :=
  lexemesFrom 0 text.toList

/-- The tokens of a text from a place on. -/
def lexemesAt (text : String) (place : Nat) : List Lexeme :=
  lexemesFrom (min place text.length) (text.toList.drop place)

/-- The place of the first token from a place on, or the end of the text. -/
def skipBlanks (text : String) (place : Nat) : Nat :=
  match lexemesAt text place with
  | [] => text.length
  | lexeme :: _ => lexeme.start

/-- Whether a text holds no token, only blanks and comments. -/
def isSilent (text : String) : Bool :=
  (lexemes text).isEmpty

end CallLang
