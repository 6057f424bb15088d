/-
  CallLang/Fault/Complaint.lean
  =============================
  **Complaints.**

  A complaint is what the programmer is told: a category, a message, and the
  offsets of the text at fault if they are known.
-/
import CallLang.Message.Template

namespace CallLang

/-- What sort of rule is broken. -/
inductive Category where
  | general
  /-- Text that is no program, or a form with the wrong operands. -/
  | grammar
  /-- A name that nothing is bound to. -/
  | reference
  /-- A value of the wrong kind, or the wrong number of arguments. -/
  | kind
  /-- A number outside of the range that is allowed. -/
  | range
deriving DecidableEq, Repr

def Category.label : Category → String
  | .general => "error"
  | .grammar => "syntax error"
  | .reference => "reference error"
  | .kind => "type error"
  | .range => "range error"

/-- A complaint.  Only a `diagnosed` one shows its line, and an `internal` one
    never does. -/
structure Complaint where
  category : Category
  message : Message
  start : Option Int
  stop : Option Int
  diagnosed : Bool
  internal : Bool
deriving DecidableEq, Repr

/-- A complaint about a place.  Without an end, the place ends where it starts. -/
def Complaint.located (category : Category) (message : Message) (start stop : Option Int) :
    Complaint :=
  { category, message, start, stop := stop.or start, diagnosed := true, internal := false }

def Complaint.ofTemplate? (category : Category) (template : String) (arguments : List String)
    (start stop : Option Int) : Except TemplateFault Complaint :=
  (Template.fill template arguments).map fun message => .located category message start stop

def Complaint.plain (message : Message) : Complaint :=
  .located .general message none none

end CallLang
