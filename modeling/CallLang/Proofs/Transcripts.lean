/-
  CallLang/Proofs/Transcripts.lean
  ================================
  **What the run of a program says.**

  A run warns, prints, and reports what has stopped it.  What it says is put together
  from pieces: plain texts, and reports, which begin with the path of the source.
  The pieces depend on the source alone, and the same pieces are said under every
  path.
-/
import CallLang.Proofs.HostErrors
import CallLang.Proofs.Isolation
import CallLang.Proofs.Reports

namespace CallLang

/-! ### Pieces -/

/-- A piece of what is said: a plain text, or a report, which begins with the path of its
    source. -/
inductive Piece where
  | plain (text : String)
  | report (address body : String)
deriving DecidableEq, Repr

/-- A piece as it is said where the source has a path. -/
def Piece.say (color : Bool) (path : String) : Piece → String
  | .plain text => text
  | .report address body => Text.Style.bold.paint color (path ++ address) ++ body

def speak (color : Bool) (path : String) (pieces : List Piece) : String :=
  String.join (pieces.map (Piece.say color path))

/-- The report of a complaint about a source. -/
def Piece.about (color : Bool) (source : String) (style : Text.Style) (label : String)
    (complaint : Complaint) : Piece :=
  .report (Reporter.addressMark source complaint.start)
    (((Reporter.new true color).register "" source).body style label complaint)

namespace Limits

/-- How the run of a program ends in a process that has done nothing yet, and what it leaves. -/
def result (limits : Limits) (source : String) : Except Stop Value × Store :=
  limits.run source Process.fresh.globals Process.fresh.store

/-- What a run says before it ends: warnings, and the lines that the program prints. -/
def remarks (limits : Limits) (color : Bool) (source : String) : List Piece :=
  let warned := match Expr.parse limits.depth source with
    | .ok program => program.warned
    | .error _ => []
  warned.map (Piece.about color source .warning "warning") ++
    (limits.result source).2.printed.toList.map fun line => .plain (line ++ "\n")

end Limits

namespace Workspace

variable {limits : Limits} {fatal color : Bool} {path source : String}

/-- The workspace of the first session of a process. -/
def first (fatal color : Bool) (path : String) : Workspace :=
  Process.opened (Reporter.new fatal color) path Process.fresh.store Process.fresh.globals

end Workspace

end CallLang
