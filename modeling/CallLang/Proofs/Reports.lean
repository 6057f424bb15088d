/-
  CallLang/Proofs/Reports.lean
  ============================
  **What a report consists of.**

  A report begins with the path of the current source and the address of what it is
  about.  Everything behind the path depends on the source alone, whatever path the
  source is registered under.  Whatever stops a program is reported in this way, unless
  it was cut off by a limit.
-/
import CallLang.Proofs.Scopes
import CallLang.Workspace

namespace CallLang

/-- What is reported of what has stopped a program, unless it was only cut off. -/
def Stop.complaint? : Stop → Option Complaint
  | .mistake cause span => some (cause.at span)
  | .breakdown .tooDeep => none
  | .breakdown cause => some (Reporter.internalComplaint cause)
  | .unfinished => none

namespace Reporter

/-- What stands behind the path: line and column of an offset, if one is known. -/
def addressMark (source : String) : Option Int → String
  | none => ": "
  | some offset =>
    let address := Text.Address.of source.toList offset
    ":" ++ Nat.repr address.number ++ ":" ++ Nat.repr address.column ++ ": "

/-- The line that a complaint is about, with the fault marked below it. -/
def diagnosis (reporter : Reporter) (style : Text.Style) (complaint : Complaint) : String :=
  match complaint.start with
  | none => ""
  | some start =>
    let address := reporter.locate start
    if complaint.internal || !complaint.diagnosed || Text.isBlankText address.line then ""
    else
      let length := complaint.stop.getD start - start
      reporter.diagnose style address.line address.column (address.column + length) ++ "\n"

/-- What a report says behind path and address. -/
def body (reporter : Reporter) (style : Text.Style) (label : String) (complaint : Complaint) :
    String :=
  (if complaint.internal then Text.Style.error.paint reporter.color "[internal] " else "") ++
    style.paint reporter.color (label ++ ": ") ++ complaint.message.render reporter.color ++ "\n" ++
    reporter.diagnosis style complaint

variable {reporter reporter' : Reporter} {path : String}

theorem present_eq (h : reporter.current = some path) (style : Text.Style) (label : String)
    (complaint : Complaint) :
    reporter.present style label complaint =
      Text.Style.bold.paint reporter.color (path ++ addressMark reporter.source complaint.start) ++
        reporter.body style label complaint := by
  unfold present body diagnosis addressMark
  rw [h]
  cases complaint.start with
  | none => simp [String.append_assoc]
  | some start =>
      have haddress : Text.Address.of reporter.source.toList start = reporter.locate start := rfl
      simp only [haddress]
      cases complaint.internal || !complaint.diagnosed ||
        Text.isBlankText (reporter.locate start).line <;> simp [String.append_assoc]

/-- Every report says something. -/
theorem isEmpty_present (reporter : Reporter) (style : Text.Style) (label : String)
    (complaint : Complaint) : (reporter.present style label complaint).isEmpty = false := by
  simp [present]

theorem source_register (reporter : Reporter) (path text : String) :
    (reporter.register path text).source = text := by
  simp [source, register, Table.get?_set]

/-! ### What has stopped a program -/

section

variable {reason : Stop} {complaint : Complaint}

theorem text_settle (h : reason.complaint? = some complaint) (reporter : Reporter) :
    (reporter.settle reason.ending).text =
      reporter.present .error complaint.category.label complaint := by
  have hthrow : ∀ other, (reporter.throw other).text =
      reporter.present .error other.category.label other := by
    intro other
    unfold throw
    split <;> rfl
  cases reason with
  | mistake cause span =>
      obtain rfl := Option.some.inj h
      exact hthrow _
  | breakdown cause =>
      cases cause with
      | tooDeep => cases h
      | _ =>
          obtain rfl := Option.some.inj h
          exact hthrow _
  | unfinished => cases h

end

end Reporter

/-- What has stopped a program is written out as it is presented. -/
theorem Workspace.guarded_stop {α : Type} {reason : Stop} {complaint : Complaint}
    (h : reason.complaint? = some complaint) (workspace : Workspace) :
    (guarded (α := α) (.error reason.ending, workspace)).2.output =
      workspace.output.push (.written
        (workspace.reporter.present .error complaint.category.label complaint)) := by
  unfold guarded
  simp only [Reporter.text_settle h, Reporter.isEmpty_present]
  cases (workspace.reporter.settle reason.ending).leaving <;> rfl

end CallLang
