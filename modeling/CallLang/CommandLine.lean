/-
  CallLang/CommandLine.lean
  =========================
  **The command line.**

  The program takes one file, or with `-e` a source to run, or nothing, which
  starts the console.  Flags may come before and after the file, and a long flag
  may be shortened as long as it is clear which one is meant.  A flag's value
  follows it, in the same argument or in the next.

  `parse` goes through the arguments once from left to right.  The first thing
  that settles the matter wins: help is given before any later fault is seen.
-/
import CallLang.Text.Quoted

namespace CallLang

inductive Flag where
  | help
  | eval
deriving DecidableEq, Repr

namespace Flag

/-- All flags, in the order in which help lists them. -/
def all : List Flag :=
  [help, eval]

theorem mem_all (f : Flag) : f ∈ all := by
  cases f <;> decide

/-- The letter of a flag, written behind one hyphen. -/
def letter : Flag → Char
  | help => 'h'
  | eval => 'e'

/-- The word of a flag, written behind two hyphens. -/
def word : Flag → String
  | help => "help"
  | eval => "eval"

def ofLetter? (letter : Char) : Option Flag :=
  all.find? fun f => f.letter == letter

def title (flag : Flag) : String :=
  "-" ++ flag.letter.toString ++ "/--" ++ flag.word

end Flag

/-- What `-e` is given.  The mark that ends the flags is never a value, so a flag to
    which it is attached has a value that is no text. -/
inductive Source where
  | text (source : String)
  | nothing
deriving DecidableEq, Repr

def Source.ofValue (value : String) : Source :=
  if value = "--" then .nothing else .text value

/-- What the command line asks for. -/
inductive Request where
  | help
  | failure (reason : String)
  | evaluate (source : Source)
  | runFile (path : String)
  | console
deriving DecidableEq, Repr

namespace CommandLine

/-- What an argument with a flag comes to: a value where none is wanted, help, a
    source, or a source that the next argument must hold, in which case help may
    have been asked for before. -/
inductive Meaning where
  | surplus (value : String)
  | help
  | source (source : Source)
  | awaiting (help : Bool)
deriving DecidableEq, Repr

def meaningOfWord : Flag → Option String → Meaning
  | .eval, none => .awaiting false
  | .eval, some value => .source (.ofValue value)
  | .help, none => .help
  | .help, some value => .surplus value

/-- The meaning of a row of letters that begins with a flag.  What follows `-e` is its
    source; what follows `-h` are further letters, each of a flag. -/
def meaningOfLetters : Flag → List Char → Meaning
  | .eval, [] => .awaiting false
  | .eval, value => .source (.ofValue (String.ofList value))
  | .help, [] => .help
  | .help, letter :: rest =>
    match Flag.ofLetter? letter with
    | none => .surplus (String.ofList (letter :: rest))
    | some flag =>
      match meaningOfLetters flag rest with
      | .source _ => .help
      | .awaiting _ => .awaiting true
      | meaning => meaning

/-- The meaning of a flag by its letter with what is attached to it, which may be set
    off by an equals sign; nothing behind the sign is a value too. -/
def meaningOfLetter (flag : Flag) : List Char → Meaning
  | ['='] => meaningOfWord flag (some "")
  | '=' :: attached => meaningOfLetters flag attached
  | attached => meaningOfLetters flag attached

/-- An argument by its form: a plain text, the mark after which all arguments are
    plain, a flag with what it means, or what looks like a flag but is none. -/
inductive Argument where
  | plain (text : String)
  | separator
  | flag (meaning : Meaning)
  | unknown (text : String)
deriving DecidableEq, Repr

/-- Whether a text is a negative number, which is no flag: digits with at most one
    point, and a digit at the end.  A line feed behind it does not count. -/
def isNegativeNumber (text : String) : Bool :=
  match text.toList with
  | '-' :: rest =>
    let rest := if rest.getLast? = some '\n' then rest.dropLast else rest
    match rest.dropWhile Text.isDecimalDigit with
    | [] => !rest.isEmpty
    | '.' :: places => !places.isEmpty && places.all Text.isDecimalDigit
    | _ => false
  | _ => false

/-- The form of an argument that begins like a flag but is none: a negative number and
    a text with a space in it are plain. -/
def classifyStranger (text : String) : Argument :=
  if isNegativeNumber text || text.toList.contains ' ' then .plain text else .unknown text

/-- The form of an argument behind two hyphens.  The word of a flag may be cut short
    as long as it fits one flag alone. -/
def classifyLong (text : String) (rest : List Char) : Except String Argument :=
  let word := rest.takeWhile (· ≠ '=')
  let value := match rest.dropWhile (· ≠ '=') with
    | [] => none
    | _ :: value => some (String.ofList value)
  match Flag.all.filter fun flag => word.isPrefixOf flag.word.toList with
  | [] => .ok (classifyStranger text)
  | [flag] => .ok (.flag (meaningOfWord flag value))
  | several =>
    .error ("ambiguous option: " ++ text ++ " could match " ++
      ", ".intercalate (several.map fun flag => "--" ++ flag.word))

/-- The form of an argument, or the reason why it has none. -/
def classify (text : String) : Except String Argument :=
  match text.toList with
  | '-' :: '-' :: rest => classifyLong text rest
  | '-' :: letter :: attached =>
    match Flag.ofLetter? letter with
    | some flag => .ok (.flag (meaningOfLetter flag attached))
    | none => .ok (classifyStranger text)
  | _ => .ok (.plain text)

/-- The forms of all arguments.  Everything after the first separator is plain. -/
def classifyAll : List String → Except String (List Argument)
  | [] => .ok []
  | text :: rest =>
    if text = "--" then .ok (.separator :: rest.map .plain)
    else
      match classify text with
      | .error reason => .error reason
      | .ok argument => (classifyAll rest).map (argument :: ·)

/-- What has been found on the command line so far: the source of the last `-e`, the
    file, whether the place of the file is taken, and the arguments that nothing
    was made of, the last one first. -/
structure Findings where
  source : Option Source
  file : Option String
  fileTaken : Bool
  extras : List String
deriving DecidableEq, Repr

/-- What to do once all arguments are read. -/
def Findings.request (findings : Findings) : Request :=
  if !findings.extras.isEmpty then
    .failure ("unrecognized arguments: " ++ " ".intercalate findings.extras.reverse)
  else
    match findings.source, findings.file with
    | some source, _ => .evaluate source
    | none, some path => .runFile path
    | none, none => .console

def flagFault (flag : Flag) (reason : String) : Request :=
  .failure ("argument " ++ flag.title ++ ": " ++ reason)

/-- Goes through the arguments.  The first plain one is the file, wherever it stands;
    a separator beside it belongs to it. -/
def scan : List Argument → Findings → Request
  | [], findings => findings.request
  | .unknown text :: rest, findings =>
    scan rest { findings with extras := text :: findings.extras }
  | .separator :: rest, findings =>
    if findings.fileTaken then scan rest { findings with extras := "--" :: findings.extras }
    else
      match rest with
      | .plain path :: rest => scan rest { findings with file := some path, fileTaken := true }
      | rest => scan rest { findings with fileTaken := true }
  | .plain text :: rest, findings =>
    if findings.fileTaken then scan rest { findings with extras := text :: findings.extras }
    else
      match rest with
      | .separator :: rest => scan rest { findings with file := some text, fileTaken := true }
      | rest => scan rest { findings with file := some text, fileTaken := true }
  | .flag (.surplus value) :: _, _ =>
    flagFault .help ("ignored explicit argument " ++ Text.quoted value)
  | .flag .help :: _, _ => .help
  | .flag (.source source) :: rest, findings => scan rest { findings with source := some source }
  | .flag (.awaiting help) :: .plain text :: rest, findings =>
    if help then .help else scan rest { findings with source := some (.ofValue text) }
  | .flag (.awaiting _) :: _, _ => flagFault .eval "expected one argument"

def parse (arguments : List String) : Request :=
  match classifyAll arguments with
  | .error reason => .failure reason
  | .ok arguments =>
    scan arguments { source := none, file := none, fileTaken := false, extras := [] }

def usage : String := "usage: wisp [-h] [-e SOURCE] [file]\n"

def helpText : String :=
  usage ++
  "\nWisp interpreter\n\npositional arguments:\n" ++
  "  file                  file to interpret and run (if empty, goes to command-\n" ++
  "                        line mode)\n\noptions:\n" ++
  "  -h, --help            show this help message and exit\n" ++
  "  -e SOURCE, --eval SOURCE\n" ++
  "                        run SOURCE and print its value\n"

def faultText (reason : String) : String :=
  usage ++ "wisp: error: " ++ reason ++ "\n"

end CommandLine

end CallLang
