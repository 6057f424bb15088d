/-
  CallLang/Console.lean
  =====================
  **The console.**

  Programs can be typed in line by line.  A line that leaves calls open is kept,
  and the lines after it belong to the same program until all calls are closed.
  Outside of an open program, a few words are commands: `help` or a question
  mark asks for help, `exit` ends the console, and so does `EOF`, which also
  stands for the end of the input.
-/
import CallLang.Continuation
import CallLang.Workspace

namespace CallLang

/-- What a line means that is not part of an open program. -/
inductive Command where
  | nothing
  | help
  /-- Leave the console. -/
  | exit
  /-- Leave the console on a new line. -/
  | endOfInput
  | program (text : String)
deriving DecidableEq, Repr

def Command.isWordChar (c : Char) : Bool :=
  c.isAlphanum || c = '_'

/-- The meaning of a line.  Blanks around it do not count.  The longest run of word
    characters at its start decides; an exclamation mark keeps it from being a
    command. -/
def Command.ofLine (line : String) : Command :=
  let text := Text.strip line
  match text.toList with
  | [] => .nothing
  | '?' :: _ => .help
  | '!' :: _ => .program text
  | chars =>
    let word := String.ofList (chars.takeWhile isWordChar)
    if word = "help" then .help
    else if word = "exit" then .exit
    else if word = "EOF" then .endOfInput
    else .program text

/-- A workspace with the lines of the program that is being typed, each ended by a
    line feed, and with what is written before the next line is read. -/
structure Console where
  workspace : Workspace
  pending : String
  prompt : String

namespace Console

def intro : String :=
  "Wisp interpreter :: Python backend\nType '?' or 'help' for more information."

def helpText : String :=
  "Welcome to the Wisp interpreter!\n\n" ++
  "Every Wisp program is a single expression: a number, a \"string\", a name, or an\n" ++
  "application like +(1, 2). Special forms control evaluation: if, while, do,\n" ++
  "define, and fun.\n\n" ++
  "Try it out by typing 'define(square, fun(x, *(x, x)))'. This will bind a\n" ++
  "function to the name 'square'. Next, try typing 'square(7)', giving 49 as\n" ++
  "the result.\n"

/-- The sign for a new program. -/
def newPrompt : String := "> "

/-- The sign for a program that goes on. -/
def openPrompt : String := ". "

def new (workspace : Workspace) : Console :=
  { workspace, pending := "", prompt := newPrompt }

def write (console : Console) (text : String) : Console :=
  { console with workspace := console.workspace.write text }

def evaluate (limits : Limits) (workspace : Workspace) (text : String) :
    Except Ending Unit × Workspace :=
  match workspace.run limits text with
  | (.error ending, workspace) => (.error ending, workspace)
  | (.ok _, workspace) =>
    match workspace.pop with
    | (.error ending, workspace) => (.error ending, workspace)
    | (.ok value, workspace) =>
      match Value.display limits.depth false value with
      | .error cause => (.error (.breakdown cause), workspace)
      | .ok shown => (.ok (), workspace.write (shown ++ "\n"))

/-- Runs a program that has been typed, under the care of the reporter, and shows its
    value.  A text of blanks and comments is no program. -/
def submit (limits : Limits) (workspace : Workspace) (text : String) :
    Except Ending Unit × Workspace :=
  if isSilent text then (.ok (), workspace)
  else
    match (evaluate limits workspace text) |> Workspace.guarded with
    | (.ok _, workspace) => (.ok (), workspace)
    | (.error ending, workspace) => (.error ending, workspace)

/-- Adds a line to the program that is being typed, and submits the program once no call
    is open. -/
def enter (limits : Limits) (console : Console) (line : String) :
    Except Ending Unit × Console :=
  let text := console.pending ++ line
  if goesOn text then (.ok (), { console with pending := text ++ "\n", prompt := openPrompt })
  else
    let (result, workspace) := submit limits console.workspace text
    (result, { workspace, pending := "", prompt := newPrompt })

/-- Takes a line and tells whether it ends the console. -/
def feed (limits : Limits) (console : Console) (line : String) : Except Ending Bool × Console :=
  let entered (text : String) : Except Ending Bool × Console :=
    match console.enter limits text with
    | (.ok _, console) => (.ok false, console)
    | (.error ending, console) => (.error ending, console)
  if console.pending.isEmpty then
    match Command.ofLine line with
    | .nothing => (.ok false, console)
    | .help => (.ok false, console.write helpText)
    | .exit => (.ok true, console)
    | .endOfInput => (.ok true, console.write "\n")
    | .program text => entered text
  else entered line

/-- Prompts for lines and takes them until one ends the console.  The end of the
    input counts as a line; should it come inside of an open program, the console
    waits for ever. -/
def converse (limits : Limits) : Console → List String → Except Ending Unit × Console
  | console, [] =>
    match (console.write console.prompt).feed limits "EOF" with
    | (.ok true, console) => (.ok (), console)
    | (.ok false, console) => (.error .unfinished, console)
    | (.error ending, console) => (.error ending, console)
  | console, line :: rest =>
    match (console.write console.prompt).feed limits line with
    | (.ok true, console) => (.ok (), console)
    | (.ok false, console) => converse limits console rest
    | (.error ending, console) => (.error ending, console)

end Console

end CallLang
