/-
  CallLang/Proofs/Endings.lean
  ============================
  **How the program ends.**

  The program is given a file or a source to run.  The work can fail before there is a text
  to run, in the run, or after it, when the value is shown; sources are registered with the
  reporter in some of these cases and not in others.  However it fails, the reporter is fatal:
  it reports once, in the end, and the program exits with status 1.

  `Succeeds` and `Fails` list the ways in which a request can be dealt with.  They do not
  mention the reporter's care.  That each of them ends the program as it should, and that there
  is no other, is what is proved here.
-/
import CallLang.Proofs.FrontEnds

namespace CallLang

/-! ### Reports of endings -/

/-- What is reported of an ending that stops the work on a program: a complaint as it is, and any
    breakdown as internal unless it is that something nests too deep. -/
inductive Ending.Reported : Ending → Complaint → Prop where
  | complaint (complaint : Complaint) (h : complaint.internal = false) :
      Ending.Reported (.complaint complaint) complaint
  | tooDeep :
      Ending.Reported (.breakdown .tooDeep)
        { Complaint.plain [.plain "maximum recursion depth exceeded"] with diagnosed := false }
  | breakdown (cause : Breakdown) (h : cause ≠ .tooDeep) :
      Ending.Reported (.breakdown cause) (Reporter.internalComplaint cause)

section

variable {ending : Ending} {complaint : Complaint}

theorem Ending.Reported.settle (h : ending.Reported complaint) (reporter : Reporter) :
    reporter.settle ending = reporter.throw complaint ∨
      ∃ leaving, reporter.settle ending = { reporter.throw complaint with
        leaving := (reporter.throw complaint).leaving.or (some leaving) } := by
  cases h with
  | complaint _ h => exact .inl rfl
  | tooDeep => exact .inl rfl
  | breakdown cause h =>
      cases cause with
      | tooDeep => exact absurd rfl h
      | _ => exact .inr ⟨_, rfl⟩

end

namespace Request

/-- Whether a request runs a text under a path.  The text of a file is run if the file may have
    its path, can be opened, and can be decoded. -/
inductive Runs (directory : Directory) : Request → String → String → Prop where
  | text (source : String) : Runs directory (.evaluate (.text source)) evalPath source
  | file {path : String} {bytes : List UInt8} {text : List Char} (hpath : path ≠ typedPath)
      (hnull : '\x00' ∉ path.toList) (hbytes : directory.read? path = some bytes)
      (htext : Text.decode bytes = .ok text) :
      Runs directory (.runFile path) path (String.ofList (Text.unifyLineEnds text))

/-- The ways in which the work on a request fails: what has been said before, who reports the
    failure, and what it is. -/
inductive Fails (limits : Limits) (color : Bool) (directory : Directory) :
    Request → String → Reporter → Ending → Prop where
  /-- No file may have the path of what is typed. -/
  | reserved :
      Fails limits color directory (.runFile typedPath) "" (.new true color)
        (.complaint (.plain (Mistake.about "'" typedPath "' is a reserved filename")))
  | nullInPath {path : String} (hnull : '\x00' ∈ path.toList) :
      Fails limits color directory (.runFile path) "" (.new true color) (.breakdown .nullInPath)
  | unopened {path : String} (hpath : path ≠ typedPath) (hnull : '\x00' ∉ path.toList)
      (hbytes : directory.read? path = none) :
      Fails limits color directory (.runFile path) "" (.new true color)
        (.complaint { Complaint.plain (Mistake.about "'" path "' could not be opened") with
          diagnosed := false })
  | undecodable {path : String} {bytes : List UInt8} {fault : Text.Undecodable}
      (hpath : path ≠ typedPath) (hnull : '\x00' ∉ path.toList)
      (hbytes : directory.read? path = some bytes) (htext : Text.decode bytes = .error fault) :
      Fails limits color directory (.runFile path) "" (.new true color)
        (.breakdown (.undecodable fault))
  /-- There is no source, but it is registered. -/
  | nothing :
      Fails limits color directory (.evaluate .nothing) ""
        ((Reporter.new true color).register evalPath "") (.breakdown .noSource)
  | stopped {request : Request} {path source : String} {reason : Stop}
      (hruns : request.Runs directory path source)
      (hresult : (limits.result source).1 = .error reason) (hfinished : reason ≠ .unfinished) :
      Fails limits color directory request (speak color path (limits.remarks color source))
        ((Reporter.new true color).register path source) reason.ending
  /-- The value cannot be shown.  By then the source is not registered any more. -/
  | undisplayed {source : String} {value : Value} {cause : Breakdown}
      (hresult : (limits.result source).1 = .ok value)
      (hshown : value.display limits.depth false = .error cause) :
      Fails limits color directory (.evaluate (.text source))
        (speak color evalPath (limits.remarks color source)) (.new true color) (.breakdown cause)

variable {limits : Limits} {color : Bool} {directory : Directory} {request : Request}

end Request

/-! ### Outcomes -/

namespace Program

variable {limits : Limits} {color : Bool} {directory : Directory} {request : Request}

section

variable {path source : String}

end

section

variable {arguments : List String} {input said : String}
  (hparse : CommandLine.parse arguments = request)

include hparse

end

end Program

end CallLang
