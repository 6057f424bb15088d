/-
  CallLang/Process.lean
  =====================
  **Processes.**

  A process has one global scope for as long as it lives.  Programs are run by
  themselves, each in a new scope inside the global one, or in sessions: a session
  is a workspace whose scope lies inside the global scope too.  All of them share
  one store, and any number of sessions may be open at a time.
-/
import CallLang.Workspace

namespace CallLang

/-- What a process is asked to do.  Sessions go by numbers. -/
inductive Operation where
  | run (source : String)
  /-- Open a session, or open it anew. -/
  | start (session : Nat) (reporter : Reporter) (path : String) (console : Bool)
  | enter (session : Nat) (source : String)

/-- The session that an operation belongs to. -/
def Operation.session? : Operation → Option Nat
  | .run _ => none
  | .start session .. => some session
  | .enter session _ => some session

/-- What an operation comes to: its value, if it has one, or its ending, everything that
    it writes, the store that it leaves, and its session. -/
structure Observation where
  result : Except Ending (Option Value)
  output : Array Output
  store : Store
  session : Option Workspace

/-- The store that is shared, the global scope, and the sessions.  The stores and outputs
    of sessions are those of their latest run. -/
structure Process where
  store : Store
  globals : ScopeId
  sessions : Nat → Option Workspace

namespace Process

def fresh : Process :=
  let (globals, store) := Store.empty.createGlobal
  { store, globals, sessions := fun _ => none }

/-- The process once a session is as a workspace says, with the store of the
    workspace. -/
def keep (process : Process) (session : Nat) (workspace : Workspace) : Process :=
  { process with
    store := workspace.store
    sessions := fun other => if other = session then some workspace else process.sessions other }

/-- Does what the process is asked to do.  Nothing comes of a program for a session that is
    not open. -/
def perform (limits : Limits) (process : Process) : Operation → Observation × Process
  | .run source =>
    let (result, store) := limits.run source process.globals { process.store with printed := #[] }
    let output := store.printed.map .printed
    let store := { store with printed := #[] }
    let result := match result with
      | .ok value => .ok (some value)
      | .error stop => .error stop.ending
    ({ result, output, store, session := none }, { process with store })
  | .start session reporter path console =>
    match Workspace.create reporter path console process.store process.globals with
    | .error complaint =>
      ({ result := .error (.complaint complaint), output := #[], store := process.store,
         session := none }, process)
    | .ok workspace =>
      ({ result := .ok none, output := #[], store := workspace.store, session := some workspace },
        process.keep session workspace)
  | .enter session source =>
    match process.sessions session with
    | none =>
      ({ result := .ok none, output := #[], store := process.store, session := none }, process)
    | some workspace =>
      let (result, workspace) :=
        { workspace with store := process.store, output := #[] }.run limits source
      ({ result := result.map some, output := workspace.output, store := workspace.store,
         session := some workspace }, process.keep session workspace)

def after (limits : Limits) (process : Process) (operations : List Operation) : Process :=
  operations.foldl (fun process operation => (process.perform limits operation).2) process

end Process

end CallLang
