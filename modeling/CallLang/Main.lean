/-
  CallLang/Main.lean
  ==================
  **The executable.**

  Reads the files and the standard input that the program works on, and writes
  what it says.
-/
import CallLang.Program

namespace CallLang.Executable

/-- Writes a text to the standard output at once. -/
def emit (text : String) : IO Unit := do
  let output ← IO.getStdout
  output.putStr text
  output.flush

/-- The bytes of a file, unless it cannot be opened. -/
def bytesOf? (path : String) : IO (Option (List UInt8)) :=
  try
    let bytes ← IO.FS.readBinFile path
    return some bytes.toList
  catch _ => return none

/-- Writes what an outcome says and yields its status; a breakdown ends with one. -/
def finish (outcome : Outcome) : IO UInt32 := do
  emit outcome.stdout
  (← IO.getStderr).putStr outcome.stderr
  return match outcome.status with
    | .ok status => status.toNat.toUInt32
    | .error _ => 1

/-- Prompts for lines until one of them ends the console.  A breakdown is reported
    once more on its way out. -/
partial def converse (console : Console) : IO UInt32 := do
  emit console.prompt
  let line ← (← IO.getStdin).getLine
  let text := if line.isEmpty then "EOF" else (line.dropEndWhile (· == '\n')).toString
  let (result, console) := console.feed Program.limits text
  emit console.workspace.transcript
  let console := { console with workspace := { console.workspace with output := #[] } }
  match result with
  | .ok true => return 0
  | .ok false => if line.isEmpty then return 1 else converse console
  | .error ending =>
    let (_, workspace) := Workspace.guarded ((.error ending : Except Ending Unit), console.workspace)
    emit workspace.transcript
    return 1

end CallLang.Executable

open CallLang CallLang.Executable in
def main (arguments : List String) : IO UInt32 := do
  let color ← (← IO.getStdout).isTty
  match CommandLine.parse arguments with
  | .runFile path => finish (Program.runFile Program.limits color path (← bytesOf? path))
  | .console =>
    let (globals, store) := Store.empty.createGlobal
    match Workspace.create (Reporter.new true color) typedPath true store globals with
    | .ok workspace =>
      emit (Console.intro ++ "\n")
      converse (Console.new workspace)
    | .error _ => return 1
  | _ => finish (Program.run Program.limits color arguments [] "")
