/-
  CallLang/Message/Basic.lean
  ===========================
  **Messages.**

  A message is a sequence of plain words and of emphasised pieces: the names,
  values and counts that it is about.  Read without colour it is one text; on a
  terminal the emphasised pieces are bold.
-/
import CallLang.Text.Style

namespace CallLang

inductive Segment where
  | plain (text : String)
  | emphasised (text : String)
deriving DecidableEq, Repr

/-- A message in the order in which it is read. -/
abbrev Message := List Segment

def Segment.text : Segment → String
  | .plain text => text
  | .emphasised text => text

/-- A segment as it is written, with or without colour. -/
def Segment.render (color : Bool) : Segment → String
  | .plain text => text
  | .emphasised text => Text.Style.bold.paint color text

def Message.text (message : Message) : String :=
  String.join (message.map Segment.text)

/-- A message as it is written, with or without colour. -/
def Message.render (color : Bool) (message : Message) : String :=
  String.join (message.map (Segment.render color))

end CallLang
