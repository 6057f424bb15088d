/-
  CallLang/Workspace.lean
  =======================
  **Workspaces.**

  A workspace runs programs under one path, one after another, in a scope that
  persists: what one run defines, the next one finds.  The values of successful
  runs are kept until they are taken back.  While a run goes on, its source is
  registered with the reporter, and it stays so if the run fails.

  Before a program is evaluated, definitions of the words of special forms are
  warned about, for no call of such a word will ever reach them.
-/
import CallLang.Eval
import CallLang.Reporter

namespace CallLang

/-- The path of programs that are typed into the console; no file may have it. -/
def typedPath : String := "<in>"

/-- A piece of output: a line that a program prints, or a text that a tool
    writes. -/
inductive Output where
  | printed (line : String)
  | written (text : String)
deriving DecidableEq, Repr

/-- The text of a piece of output; a printed line ends with a line feed. -/
def Output.text : Output → String
  | .printed line => line ++ "\n"
  | .written text => text

/-- A path, the state of the program's world, the scope of the workspace, the
    reporter, the values of runs not yet taken back, the last first, and all
    output in order. -/
structure Workspace where
  path : String
  store : Store
  scope : ScopeId
  reporter : Reporter
  results : List Value
  output : Array Output

/-- The word of a form that a call defines, with the place of the word. -/
def redefinition? : Expr → Option (String × Span)
  | .call (.name text _) (.name word span :: _) _ =>
    if text = Form.define.word && (Form.ofWord? word).isSome then some (word, span) else none
  | _ => none

mutual

/-- The words of forms that a program defines, with the places of the words, in the
    order of the text. -/
def Expr.redefinitions : Expr → List (String × Span)
  | .call operator arguments span =>
    (redefinition? (.call operator arguments span)).toList ++ operator.redefinitions ++
      Expr.allRedefinitions arguments
  | _ => []

def Expr.allRedefinitions : List Expr → List (String × Span)
  | [] => []
  | expr :: rest => expr.redefinitions ++ Expr.allRedefinitions rest

end

namespace Workspace

/-- A workspace in a new scope inside a global one.  The console is not to be ended
    by an error, and its path is reserved. -/
def create (reporter : Reporter) (path : String) (console : Bool) (store : Store)
    (globals : ScopeId) : Except Complaint Workspace :=
  let (scope, store) := store.create (some globals) []
  if console then
    .ok { path, store, scope, reporter := { reporter with fatal := false }, results := [],
          output := #[] }
  else if path = typedPath then
    .error (.plain (Mistake.about "'" typedPath "' is a reserved filename"))
  else .ok { path, store, scope, reporter, results := [], output := #[] }

def write (workspace : Workspace) (text : String) : Workspace :=
  { workspace with output := workspace.output.push (.written text) }

def warnOf (workspace : Workspace) (word : String) (span : Span) : Workspace :=
  workspace.write <| workspace.reporter.warn <|
    .located .general
      (Mistake.about "'" word "' is a special form, calls to it will not use this definition")
      (some span.start) (some span.stop)

/-- Warns about all definitions of forms' words in a program. -/
def check (workspace : Workspace) (program : Expr) : Workspace :=
  program.redefinitions.foldl (fun workspace (word, span) => workspace.warnOf word span) workspace

/-- Performs an action on the store.  What it prints becomes output. -/
def perform {α : Type} (workspace : Workspace) (action : Action α) :
    Except Ending α × Workspace :=
  let (result, store) := action { workspace.store with printed := #[] }
  let workspace :=
    { workspace with
      store := { store with printed := #[] }
      output := workspace.output ++ store.printed.map .printed }
  match result with
  | .ok a => (.ok a, workspace)
  | .error stop => (.error stop.ending, workspace)

def run (limits : Limits) (workspace : Workspace) (source : String) :
    Except Ending Value × Workspace :=
  let workspace :=
    { workspace with reporter := workspace.reporter.register workspace.path source }
  match Expr.parse limits.depth source with
  | .error stop => (.error stop.ending, workspace)
  | .ok program =>
    match (workspace.check program).perform (limits.eval program workspace.scope) with
    | (.error ending, workspace) => (.error ending, workspace)
    | (.ok value, workspace) =>
      (.ok value,
        { workspace with
          results := value :: workspace.results
          reporter := workspace.reporter.remove workspace.path })

/-- Starts a run without any text to run.  The path is registered all the same. -/
def runNothing (workspace : Workspace) : Except Ending Value × Workspace :=
  (.error (.breakdown .noSource),
    { workspace with reporter := workspace.reporter.register workspace.path "" })

/-- Runs the program of a file, given the bytes of the file if it could be opened. -/
def load (limits : Limits) (workspace : Workspace) (file : Option (List UInt8)) :
    Except Ending Value × Workspace :=
  if workspace.path.toList.contains '\x00' then (.error (.breakdown .nullInPath), workspace)
  else
    match file with
    | none =>
      (.error (.complaint
        { Complaint.plain (Mistake.about "'" workspace.path "' could not be opened") with
          diagnosed := false }), workspace)
    | some bytes =>
      match Text.decode bytes with
      | .error fault => (.error (.breakdown (.undecodable fault)), workspace)
      | .ok text => workspace.run limits (String.ofList (Text.unifyLineEnds text))

def pop (workspace : Workspace) : Except Ending Value × Workspace :=
  match workspace.results with
  | [] => (.error (.breakdown .noResult), workspace)
  | value :: results => (.ok value, { workspace with results })

/-- Settles the end of work that was under the reporter's care.  Yields no value if
    an ending was settled for good. -/
def guarded {α : Type} : Except Ending α × Workspace → Except Ending (Option α) × Workspace
  | (.ok a, workspace) => (.ok (some a), workspace)
  | (.error ending, workspace) =>
    let settled := workspace.reporter.settle ending
    let workspace :=
      if settled.text.isEmpty then workspace else workspace.write settled.text
    let workspace := { workspace with reporter := settled.reporter }
    match settled.leaving with
    | none => (.ok none, workspace)
    | some ending => (.error ending, workspace)

def transcript (workspace : Workspace) : String :=
  String.join (workspace.output.toList.map Output.text)

end Workspace

end CallLang
