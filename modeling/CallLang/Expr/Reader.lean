/-
  CallLang/Expr/Reader.lean
  =========================
  **Reading expressions.**

  An expression is an atom, that is a text, a numeral or a word, followed by any
  number of argument lists: `f(a)(b)` calls the result of `f(a)`.  Arguments are
  expressions separated by commas, without a comma at the end.

  The reader goes through the tokens once and keeps the calls whose brackets are
  still open on a stack.  At any moment it either awaits an expression or holds
  one that the next token may extend.  An argument list may stand at most `limit`
  levels deep, where every argument list around it counts as a level and so does
  every one before it in the same chain of calls.
-/
import CallLang.Fault.Stop
import CallLang.Text.Digits
import CallLang.Token

namespace CallLang

namespace Reader

/-- What the reader has met just before an expression is due. -/
inductive Opening where
  | start
  | bracket
  | comma
deriving DecidableEq, Repr

/-- What the reader has in hand. -/
inductive Stage where
  | awaiting (opening : Opening)
  | holding (expr : Expr)

/-- A call whose arguments are being read, the last one first, and the level of
    its argument list. -/
structure Frame where
  operator : Expr
  arguments : List Expr
  level : Nat

def Frame.push (frame : Frame) (argument : Expr) : Frame :=
  { frame with arguments := argument :: frame.arguments }

/-- The call of a frame, once its closing bracket is read. -/
def Frame.close (frame : Frame) (stop : Nat) : Expr :=
  .call frame.operator frame.arguments.reverse ⟨frame.operator.span.start, stop⟩

def lineFrom (text : List Char) (place : Nat) : String :=
  String.ofList ((text.drop place).takeWhile (· ≠ '\n'))

/-- A mistake at one place or between two. -/
def refuse {α : Type} (cause : Mistake) (start stop : Nat) : Except Stop α :=
  .error (.mistake cause (some ⟨start, stop⟩))

/-- An atom that a token stands for.  A token that is no atom is a mistake where an
    expression is due. -/
def atom (text : List Char) (lexeme : Lexeme) : Except Stop Expr :=
  let span : Span := ⟨lexeme.start, lexeme.stop⟩
  match lexeme.token with
  | .text contents => .ok (.literal (.string (String.ofList contents)) span)
  | .numeral digits =>
    if maxDigits < digits.length then .error (.breakdown (.longNumeral digits.length))
    else .ok (.literal (.int (Text.digitsValue digits)) span)
  | .word name => .ok (.name (String.ofList name) span)
  | _ => refuse (.unexpected (lineFrom text lexeme.start)) lexeme.start (lexeme.start + 1)

/-- Reads on from a stage, with the frames of the open calls and the level of the
    next argument list.  Yields the expression and the tokens behind it. -/
def read (limit : Nat) (text : List Char) :
    Stage → List Frame → Nat → List Lexeme → Except Stop (Expr × List Lexeme)
  | .awaiting _, _, _, [] => refuse .endOfText text.length text.length
  | .awaiting opening, frames, level, lexeme :: rest =>
    match lexeme.token, opening, frames with
    | .closing, .bracket, frame :: frames =>
      read limit text (.holding (frame.close lexeme.stop)) frames (frame.level + 1) rest
    | .closing, .comma, _ => refuse .nothingAfterComma lexeme.start (lexeme.start + 1)
    | _, _, _ =>
      match atom text lexeme with
      | .error stop => .error stop
      | .ok expr => read limit text (.holding expr) frames level rest
  | .holding expr, [], _, [] => .ok (expr, [])
  | .holding _, _ :: _, _, [] => refuse .openCall text.length text.length
  | .holding expr, frames, level, lexeme :: rest =>
    match lexeme.token, frames with
    | .opening, _ =>
      if level < limit then
        read limit text (.awaiting .bracket) ({ operator := expr, arguments := [], level } :: frames)
          (level + 1) rest
      else .error (.breakdown .tooDeep)
    | _, [] => .ok (expr, lexeme :: rest)
    | .comma, frame :: frames =>
      read limit text (.awaiting .comma) (frame.push expr :: frames) (frame.level + 1) rest
    | .closing, frame :: frames =>
      read limit text (.holding ((frame.push expr).close lexeme.stop)) frames
        (frame.level + 1) rest
    | _, _ :: _ => refuse .missingSeparator lexeme.start (lexeme.start + 1)

/-- Reads on from a stage through some tokens of a text.  Yields the expression and the
    place of the next token, or of the end of the text. -/
def readFrom (limit : Nat) (text : String) (stage : Stage) (tokens : List Lexeme) :
    Except Stop (Expr × Nat) :=
  match read limit text.toList stage [] 0 tokens with
  | .error stop => .error stop
  | .ok (expr, []) => .ok (expr, text.length)
  | .ok (expr, lexeme :: _) => .ok (expr, lexeme.start)

/-- The tokens up to the bracket that closes the first argument list, given the number
    of lists already open; all tokens if it is not closed. -/
def throughFirstList (opened : Nat) : List Lexeme → List Lexeme
  | [] => []
  | lexeme :: rest =>
    match lexeme.token with
    | .opening => lexeme :: throughFirstList (opened + 1) rest
    | .closing => if opened ≤ 1 then [lexeme] else lexeme :: throughFirstList (opened - 1) rest
    | _ => lexeme :: throughFirstList opened rest

end Reader

namespace Expr

/-- Reads the expression that begins at a place of a text. -/
def readAt (limit : Nat) (text : String) (place : Nat) : Except Stop (Expr × Nat) :=
  Reader.readFrom limit text (.awaiting .start) (lexemesAt text place)

/-- Reads the argument lists that follow an expression at a place of a text.  A call
    begins where its operator begins, so there is no call of a hole, which is found
    out as soon as the first list is read. -/
def readCalls (limit : Nat) (expr : Expr) (text : String) (place : Nat) :
    Except Stop (Expr × Nat) :=
  let tokens := lexemesAt text place
  match expr with
  | .hole =>
    match Reader.readFrom limit text (.holding .hole) (Reader.throughFirstList 0 tokens) with
    | .ok (.call .., _) => .error (.breakdown .noPlace)
    | result => result
  | _ => Reader.readFrom limit text (.holding expr) tokens

/-- Reads a program: one expression that takes up the whole text. -/
def parse (limit : Nat) (text : String) : Except Stop Expr :=
  match readAt limit text 0 with
  | .error stop => .error stop
  | .ok (expr, place) =>
    if place = text.length then .ok expr
    else Reader.refuse .textAfterProgram place text.length

end Expr

end CallLang
