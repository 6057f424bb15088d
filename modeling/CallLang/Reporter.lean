/-
  CallLang/Reporter.lean
  ======================
  **Reports.**

  The reporter knows the sources that are being worked on and presents complaints
  and warnings about the current one: path, line and column, the message, and
  the line with the fault marked below it.

  Work can be put under its care.  Whatever ends such work early is settled:
  complaints, interruptions and too deep recursion are reported and go no
  further, other breakdowns are reported as internal and go on.  A fatal reporter
  ends the program with status 1 after its first report; any other forgets all
  sources and continues.
-/
import CallLang.Fault.Stop
import CallLang.Table
import CallLang.Text.Address
import CallLang.Text.Blank

namespace CallLang

/-- Who presents errors: whether it ends the program, whether it uses colour, the
    sources by their paths, and the path of the current one. -/
structure Reporter where
  fatal : Bool
  color : Bool
  sources : Table String
  current : Option String
deriving DecidableEq, Repr

/-- What settling an ending has written, the reporter after it, and the ending that
    goes on, if one does. -/
structure Settled where
  text : String
  reporter : Reporter
  leaving : Option Ending
deriving DecidableEq, Repr

namespace Reporter

def new (fatal color : Bool) : Reporter :=
  { fatal, color, sources := [], current := none }

/-! ### Sources -/

/-- Makes a text the current source, under a path. -/
def register (reporter : Reporter) (path source : String) : Reporter :=
  { reporter with sources := reporter.sources.set path source, current := some path }

/-- Forgets a source.  The one that came in last among the others is current
    then. -/
def remove (reporter : Reporter) (path : String) : Reporter :=
  let sources := reporter.sources.erase path
  { reporter with sources, current := sources.newest? }

def clear (reporter : Reporter) : Reporter :=
  { reporter with sources := [], current := none }

/-- The text of the current source; without one it is empty. -/
def source (reporter : Reporter) : String :=
  ((reporter.current.bind fun path => reporter.sources.get? path)).getD ""

def locate (reporter : Reporter) (offset : Int) : Text.Address :=
  Text.Address.of reporter.source.toList offset

/-! ### Presentation -/

/-- A line with the part between two columns in a style, and a mark under that part.
    The part has one character at least and does not leave the line, unless it
    starts at its end. -/
def diagnose (reporter : Reporter) (style : Text.Style) (line : String) (start stop : Int) :
    String :=
  let chars := line.toList
  let stop := min (max stop (start + 1)) (max (chars.length : Int) (start + 1))
  let part := String.ofList (Text.slice chars start stop)
  let mark := String.ofList ('^' :: List.replicate (stop - start - 1).toNat '~')
  "  " ++ String.ofList (Text.upTo chars start) ++ style.paint reporter.color part ++
    String.ofList (Text.onFrom chars stop) ++ "\n" ++
    "  " ++ String.ofList (List.replicate start.toNat ' ') ++ style.paint reporter.color mark

/-- A complaint as it is presented, under a label: the place as far as it is known,
    the message, and the diagnosis of the line unless it is blank. -/
def present (reporter : Reporter) (style : Text.Style) (label : String) (complaint : Complaint) :
    String :=
  let bold := Text.Style.bold.paint reporter.color
  let (place, diagnosis) :=
    match complaint.start, reporter.current with
    | some start, some path =>
      let address := reporter.locate start
      let place := bold (path ++ ":" ++ Nat.repr address.number ++ ":" ++
        Nat.repr address.column ++ ": ")
      if complaint.internal || !complaint.diagnosed || Text.isBlankText address.line then
        (place, "")
      else
        let length := complaint.stop.getD start - start
        (place, reporter.diagnose style address.line address.column (address.column + length) ++
          "\n")
    | _, some path => (bold (path ++ ": "), "")
    | _, none => ("", "")
  let internal :=
    if complaint.internal then Text.Style.error.paint reporter.color "[internal] " else ""
  place ++ internal ++ style.paint reporter.color (label ++ ": ") ++
    complaint.message.render reporter.color ++ "\n" ++ diagnosis

def warn (reporter : Reporter) (complaint : Complaint) : String :=
  reporter.present .warning "warning" complaint

/-! ### Settling -/

def throw (reporter : Reporter) (complaint : Complaint) : Settled :=
  let text := reporter.present .error complaint.category.label complaint
  if reporter.fatal then { text, reporter, leaving := some (.exit (some 1)) }
  else { text, reporter := reporter.clear, leaving := none }

/-- The complaint about a breakdown that has no other explanation. -/
def internalComplaint (cause : Breakdown) : Complaint :=
  { Complaint.plain
      (Mistake.about "unknown error: '" (cause.name ++ ": " ++ cause.text) "'") with
    internal := true }

/-- Settles what has ended the work under the reporter's care. -/
def settle (reporter : Reporter) : Ending → Settled
  | .complaint complaint => reporter.throw complaint
  | .interrupt => reporter.throw (.plain [.plain "keyboard interrupt"])
  | .breakdown .tooDeep =>
    reporter.throw
      { Complaint.plain [.plain "maximum recursion depth exceeded"] with diagnosed := false }
  | .breakdown cause =>
    let settled := reporter.throw (internalComplaint cause)
    { settled with leaving := settled.leaving.or (some (.breakdown cause)) }
  | .exit status => { text := "", reporter, leaving := some (.exit status) }
  | .unfinished => { text := "", reporter, leaving := some .unfinished }

end Reporter

end CallLang
