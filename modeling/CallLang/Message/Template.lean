/-
  CallLang/Message/Template.lean
  ==============================
  **Message templates.**

  A template is a text with slots.  `{}` takes the next argument, `{2}` the
  argument of that number, counted from zero, and a doubled brace stands for a
  single one.  A template numbers all of its slots or none.  Filling it yields a
  message whose arguments are emphasised.
-/
import CallLang.Message.Basic
import CallLang.Text.Digits

namespace CallLang

/-- The brace that begins a slot. -/
def openingBrace : Char := Char.ofNat 0x7B

/-- The brace that ends a slot. -/
def closingBrace : Char := Char.ofNat 0x7D

inductive TemplateFault where
  | loneOpening
  | loneClosing
  | unclosedSlot
  | nestedOpening
  /-- A slot asks for an argument that is not there. -/
  | missingArgument (index : Nat)
  /-- A numbered slot follows one without a number. -/
  | numberedAfterPlain
  /-- A slot without a number follows a numbered one. -/
  | plainAfterNumbered
  /-- A slot is named by a text that is no number. -/
  | unknownName (name : String)
  /-- A slot has a number that no argument can have. -/
  | hugeNumber
deriving DecidableEq, Repr

namespace Template

/-- How the slots of a template choose their arguments: undecided before the
    first slot, then by their order, with the number of the next one, or by
    their numbers. -/
inductive Numbering where
  | undecided
  | ordered (next : Nat)
  | numbered

/-- The number that digits of any script denote, unless another character is among
    them. -/
def number? (name : List Char) : Option Nat :=
  (name.mapM Text.decimalDigit?).map fun digits => digits.foldl (fun n d => n * 10 + d) 0

/-- The first number that is too large for an argument. -/
def numberEnd : Nat := Nat.pow 2 63

/-- The argument that a slot takes, and how the slots after it are numbered. -/
def choose (numbering : Numbering) (name : List Char) : Except TemplateFault (Nat × Numbering) :=
  if name.isEmpty then
    match numbering with
    | .undecided => .ok (0, .ordered 1)
    | .ordered next => .ok (next, .ordered (next + 1))
    | .numbered => .error .plainAfterNumbered
  else
    match number? name with
    | none => .error (.unknownName (String.ofList name))
    | some index =>
      if numberEnd ≤ index then .error .hugeNumber
      else
        match numbering with
        | .ordered _ => .error .numberedAfterPlain
        | _ => .ok (index, .numbered)

/-- Where the reading of a template stands: outside of slots, just after a brace
    that may be doubled, or inside a slot with the name read so far, last
    character first. -/
inductive State where
  | outside
  | afterOpening
  | afterClosing
  | inside (name : List Char)

/-- The argument of a slot, and how the slots after it are numbered. -/
def argument (arguments : List String) (numbering : Numbering) (name : List Char) :
    Except TemplateFault (String × Numbering) :=
  match choose numbering name with
  | .error fault => .error fault
  | .ok (index, numbering) =>
    match arguments[index]? with
    | none => .error (.missingArgument index)
    | some text => .ok (text, numbering)

def fillFrom (arguments : List String) :
    State → Numbering → List Char → Except TemplateFault Message
  | .outside, _, [] => .ok []
  | .afterOpening, _, [] => .error .loneOpening
  | .afterClosing, _, [] => .error .loneClosing
  | .inside _, _, [] => .error .unclosedSlot
  | .outside, numbering, c :: rest =>
    if c = openingBrace then fillFrom arguments .afterOpening numbering rest
    else if c = closingBrace then fillFrom arguments .afterClosing numbering rest
    else (fillFrom arguments .outside numbering rest).map (.plain c.toString :: ·)
  | .afterClosing, numbering, c :: rest =>
    if c = closingBrace then
      (fillFrom arguments .outside numbering rest).map (.plain c.toString :: ·)
    else .error .loneClosing
  | .afterOpening, numbering, c :: rest =>
    if c = openingBrace then
      (fillFrom arguments .outside numbering rest).map (.plain c.toString :: ·)
    else if c = closingBrace then
      match argument arguments numbering [] with
      | .error fault => .error fault
      | .ok (text, numbering) =>
        (fillFrom arguments .outside numbering rest).map (.emphasised text :: ·)
    else fillFrom arguments (.inside [c]) numbering rest
  | .inside name, numbering, c :: rest =>
    if c = closingBrace then
      match argument arguments numbering name.reverse with
      | .error fault => .error fault
      | .ok (text, numbering) =>
        (fillFrom arguments .outside numbering rest).map (.emphasised text :: ·)
    else if c = openingBrace then .error .nestedOpening
    else fillFrom arguments (.inside (c :: name)) numbering rest

/-- Fills the slots of a template with arguments. -/
def fill (template : String) (arguments : List String) : Except TemplateFault Message :=
  fillFrom arguments .outside .undecided template.toList

end Template

end CallLang
