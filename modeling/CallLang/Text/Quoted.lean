/-
  CallLang/Text/Quoted.lean
  =========================
  **Quoted text.**

  The dumps of the tree and of a scope show a text between quotation marks, on
  one line and in visible characters.  The marks are single unless the text
  holds a single one and no double one; the mark, the backslash and the
  characters without a visible form are escaped.
-/
import CallLang.Text.Digits
import CallLang.Text.Unprintable

namespace CallLang.Text

/-- The mark around a quoted text: the double one exactly if the text holds a
    single mark and no double mark, so that as little as possible is escaped. -/
def quoteMark (text : List Char) : Char :=
  if text.contains '\'' && !text.contains '"' then '"' else '\''

/-- A code point in two, four or eight hexadecimal digits, as few as hold it,
    after the letter that announces their number. -/
def codePointEscape (n : Nat) : List Char :=
  if n < 0x100 then '\\' :: 'x' :: hexDigits 2 n
  else if n < 0x10000 then '\\' :: 'u' :: hexDigits 4 n
  else '\\' :: 'U' :: hexDigits 8 n

def escapeChar (mark c : Char) : List Char :=
  if c = mark ∨ c = '\\' then ['\\', c]
  else if c = '\n' then ['\\', 'n']
  else if c = '\r' then ['\\', 'r']
  else if c = '\t' then ['\\', 't']
  else if isUnprintable c then codePointEscape c.toNat
  else [c]

def quoted (text : String) : String :=
  let mark := quoteMark text.toList
  String.ofList (mark :: text.toList.flatMap (escapeChar mark) ++ [mark])

end CallLang.Text
