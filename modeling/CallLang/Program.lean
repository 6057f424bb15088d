/-
  CallLang/Program.lean
  =====================
  **The program as a whole.**

  From the command line, the files and the standard input follow the status with
  which the program ends and everything that it writes.  All work is done under a
  fatal reporter, except in the console, which no error is to end.
-/
import CallLang.CommandLine
import CallLang.Console
import CallLang.Directory

namespace CallLang

def evalPath : String := "<eval>"

/-- How the program ends: with a status, unless a breakdown goes through to its
    surroundings, and with what is written to its two outputs. -/
structure Outcome where
  status : Except Ending Int
  stdout : String
  stderr : String

namespace Program

/-- The bounds that the program runs within.  Nesting is bounded by what the stack
    holds; the rounds of a loop are as good as unbounded. -/
def limits : Limits :=
  { depth := 5000, rounds := Nat.pow 2 62 }

/-- A status for the end of the work.  Work that was settled or that has succeeded
    ends with zero. -/
def statusOf {α : Type} : Except Ending α → Except Ending Int
  | .ok _ => .ok 0
  | .error (.exit status) => .ok (status.getD 0)
  | .error ending => .error ending

/-- Does work in a new workspace for a path, under the care of a new reporter. -/
def inWorkspace (color console : Bool) (path : String)
    (work : Workspace → Except Ending Unit × Workspace) : Outcome :=
  let reporter := Reporter.new true color
  let (globals, store) := Store.empty.createGlobal
  match Workspace.create reporter path console store globals with
  | .error complaint =>
    let settled := reporter.throw complaint
    { status := statusOf (match settled.leaving with
        | none => .ok ()
        | some ending => .error ending)
      stdout := settled.text
      stderr := "" }
  | .ok workspace =>
    let (result, workspace) := (work workspace) |> Workspace.guarded
    { status := statusOf result, stdout := workspace.transcript, stderr := "" }

/-- Runs a source and shows its value. -/
def evaluate (limits : Limits) (color : Bool) (source : Source) : Outcome :=
  inWorkspace color false evalPath fun workspace =>
    let ran := match source with
      | .text source => workspace.run limits source
      | .nothing => workspace.runNothing
    match ran with
    | (.error ending, workspace) => (.error ending, workspace)
    | (.ok value, workspace) =>
      match Value.display limits.depth false value with
      | .error cause => (.error (.breakdown cause), workspace)
      | .ok shown => (.ok (), workspace.write (shown ++ "\n"))

/-- Runs the program of a file, given the bytes of the file if it can be opened. -/
def runFile (limits : Limits) (color : Bool) (path : String) (file : Option (List UInt8)) :
    Outcome :=
  inWorkspace color false path fun workspace =>
    match workspace.load limits file with
    | (.error ending, workspace) => (.error ending, workspace)
    | (.ok _, workspace) => (.ok (), workspace)

/-- Takes programs from the lines of an input. -/
def converse (limits : Limits) (color : Bool) (lines : List String) : Outcome :=
  inWorkspace color true typedPath fun workspace =>
    let console := Console.new (workspace.write (Console.intro ++ "\n"))
    match console.converse limits lines with
    | (result, console) => (result, console.workspace)

def run (limits : Limits) (color : Bool) (arguments : List String) (directory : Directory)
    (input : String) : Outcome :=
  match CommandLine.parse arguments with
  | .help => { status := .ok 0, stdout := CommandLine.helpText, stderr := "" }
  | .failure reason => { status := .ok 2, stdout := "", stderr := CommandLine.faultText reason }
  | .evaluate source => evaluate limits color source
  | .runFile path => runFile limits color path (directory.read? path)
  | .console => converse limits color (Text.inputLines input)

end Program

end CallLang
