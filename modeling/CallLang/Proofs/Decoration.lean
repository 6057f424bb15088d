/-
  CallLang/Proofs/Decoration.lean
  ===============================
  **The same work with colour and without.**

  Two workspaces that differ in nothing but colour are given the same work.  It comes to the
  same in both of them, and afterwards they differ in nothing but colour still: one of them has
  written what the other one has, with renditions in it (`Workspace.Decorates`).  This holds of
  everything that is done in a session, of every line that is given to the console, and so of
  the program as a whole.
-/
import CallLang.Proofs.Bookkeeping
import CallLang.Proofs.Renditions
import CallLang.Program

namespace CallLang

/-! ### Output -/

/-- Whether a piece of output is another one with renditions in it.  What a program prints has no
    more of them than before. -/
inductive Output.Decorates : Output → Output → Prop where
  | printed (line : String) : Output.Decorates (.printed line) (.printed line)
  | written {painted plain : String} (h : Text.Decorates painted plain) :
      Output.Decorates (.written painted) (.written plain)

theorem Output.Decorates.text {painted plain : Output} (h : painted.Decorates plain) :
    Text.Decorates painted.text plain.text := by
  cases h with
  | printed line => exact .refl _
  | written h => exact h

/-! ### Workspaces -/

/-- Whether two workspaces are the same but for colour.  Only the first one uses it. -/
structure Workspace.Decorates (painted plain : Workspace) : Prop where
  path : painted.path = plain.path
  store : painted.store = plain.store
  scope : painted.scope = plain.scope
  results : painted.results = plain.results
  reporter : ∃ reporter : Reporter,
    painted.reporter = reporter.withColor true ∧ plain.reporter = reporter.withColor false
  output : List.Forall₂ Output.Decorates painted.output.toList plain.output.toList

/-- Whether two pieces of work come to the same, and what they leave is related. -/
structure SameWork {α σ : Type} (related : σ → σ → Prop) (work work' : Except Ending α × σ) :
    Prop where
  result : work.1 = work'.1
  left : related work.2 work'.2

namespace SameWork

variable {α β σ : Type} {related : σ → σ → Prop} {work work' : Except Ending α × σ}

theorem map (h : SameWork related work work') (f : α → β) :
    SameWork related (work.1.map f, work.2) (work'.1.map f, work'.2) :=
  ⟨congrArg (Except.map f) h.result, h.left⟩

theorem cases (h : SameWork related work work') :
    (∃ ending left left', related left left' ∧ work = (.error ending, left) ∧
      work' = (.error ending, left')) ∨
    ∃ a left left', related left left' ∧ work = (.ok a, left) ∧ work' = (.ok a, left') := by
  obtain ⟨result, left⟩ := work
  obtain ⟨result', left'⟩ := work'
  obtain ⟨hresult, hleft⟩ := h
  obtain rfl : result = result' := hresult
  cases result with
  | error ending => exact .inl ⟨ending, left, left', hleft, rfl, rfl⟩
  | ok a => exact .inr ⟨a, left, left', hleft, rfl, rfl⟩

end SameWork

namespace Workspace

/-- A workspace whose reporter uses colour or does not. -/
def withColor (color : Bool) (workspace : Workspace) : Workspace :=
  { workspace with reporter := workspace.reporter.withColor color }

/-- Whether a workspace can be created, and how, does not depend on colour. -/
theorem create_withColor (color : Bool) (reporter : Reporter) (path : String) (console : Bool)
    (store : Store) (globals : ScopeId) :
    create (reporter.withColor color) path console store globals =
      (create reporter path console store globals).map (withColor color) := by
  cases console with
  | true => rfl
  | false =>
      simp only [create, Bool.false_eq_true, if_false]
      split <;> rfl

/-- Writes a value on a line of its own, if it can be shown. -/
def showValue (limits : Limits) (workspace : Workspace) (value : Value) :
    Except Ending Unit × Workspace :=
  match Value.display limits.depth false value with
  | .error cause => (.error (.breakdown cause), workspace)
  | .ok shown => (.ok (), workspace.write (shown ++ "\n"))

theorem decorates_withColor {workspace : Workspace} (h : workspace.output = #[]) :
    (workspace.withColor true).Decorates (workspace.withColor false) where
  path := rfl
  store := rfl
  scope := rfl
  results := rfl
  reporter := ⟨workspace.reporter, rfl, rfl⟩
  output := by
    simp only [withColor, h]
    exact .nil

namespace Decorates

variable {painted plain : Workspace} (h : painted.Decorates plain) (limits : Limits)
include h

theorem transcript : Text.Decorates painted.transcript plain.transcript := by
  have houtput := h.output
  unfold Workspace.transcript
  generalize painted.output.toList = pieces, plain.output.toList = pieces' at houtput
  clear h
  induction houtput with
  | nil => exact .refl _
  | cons hfirst _ ih =>
      rw [List.map_cons, List.map_cons, String.join_cons, String.join_cons]
      exact hfirst.text.append ih

theorem append {added added' : Array Output}
    (hadded : List.Forall₂ Output.Decorates added.toList added'.toList) :
    Workspace.Decorates { painted with output := painted.output ++ added }
      { plain with output := plain.output ++ added' } where
  path := h.path
  store := h.store
  scope := h.scope
  results := h.results
  reporter := h.reporter
  output := by
    rw [Array.toList_append, Array.toList_append]
    exact List.rel_append h.output hadded

theorem write {text text' : String} (htext : Text.Decorates text text') :
    (painted.write text).Decorates (plain.write text') := by
  rw [Workspace.write, Workspace.write, Array.push_eq_append, Array.push_eq_append]
  exact h.append (.cons (.written htext) .nil)

theorem check (program : Expr) : (painted.check program).Decorates (plain.check program) := by
  obtain ⟨reporter, hpainted, hplain⟩ := h.reporter
  rw [check_eq, check_eq]
  refine h.append ?_
  rw [hpainted, hplain, warnings_eq, warnings_eq, List.forall₂_map_left_iff,
    List.forall₂_map_right_iff, List.forall₂_same]
  exact fun complaint _ => .written (reporter.present_decorates _ _ complaint)

theorem running (source : String) : (painted.running source).Decorates (plain.running source) := by
  obtain ⟨reporter, hpainted, hplain⟩ := h.reporter
  refine { h with reporter := ⟨reporter.register plain.path source, ?_, ?_⟩ }
  · rw [Workspace.running, hpainted, h.path]
    rfl
  · rw [Workspace.running, hplain]
    rfl

theorem evaluated (program : Expr) (store : Store) :
    (painted.evaluated program store).Decorates (plain.evaluated program store) := by
  have hchecked := h.check program
  rw [check_eq, check_eq] at hchecked
  have hprinted : List.Forall₂ Output.Decorates (store.printed.map Output.printed).toList
      (store.printed.map Output.printed).toList := by
    rw [List.forall₂_same]
    intro piece hpiece
    obtain ⟨line, -, rfl⟩ := Array.mem_map.1 (Array.mem_toList_iff.1 hpiece)
    exact .printed line
  exact { hchecked.append hprinted with store := rfl }

theorem succeeded (value : Value) :
    (painted.succeeded value).Decorates (plain.succeeded value) := by
  obtain ⟨reporter, hpainted, hplain⟩ := h.reporter
  refine
    { h with
      results := congrArg (value :: ·) h.results
      reporter := ⟨reporter.remove plain.path, ?_, ?_⟩ }
  · rw [Workspace.succeeded, hpainted, h.path]
    rfl
  · rw [Workspace.succeeded, hplain]
    rfl

/-! ### Tasks -/

theorem run (source : String) :
    SameWork Workspace.Decorates (painted.run limits source) (plain.run limits source) := by
  have hrunning := h.running source
  cases hparse : Expr.parse limits.depth source with
  | error reason =>
      rw [run_of_error hparse, run_of_error hparse]
      exact ⟨rfl, hrunning⟩
  | ok program =>
      rw [run_of_ok hparse, run_of_ok hparse, h.scope, h.store]
      generalize limits.eval program plain.scope plain.store.quiet = out
      obtain ⟨reason | value, store⟩ := out
      · exact ⟨rfl, hrunning.evaluated program store⟩
      · exact ⟨rfl, (hrunning.evaluated program store).succeeded value⟩

theorem load (file : Option (List UInt8)) :
    SameWork Workspace.Decorates (painted.load limits file) (plain.load limits file) := by
  unfold Workspace.load
  rw [h.path]
  split
  · exact ⟨rfl, h⟩
  · cases file with
    | none => exact ⟨rfl, h⟩
    | some bytes =>
        simp only
        cases Text.decode bytes with
        | error fault => exact ⟨rfl, h⟩
        | ok text => exact h.run limits _

theorem pop : SameWork Workspace.Decorates painted.pop plain.pop := by
  unfold Workspace.pop
  rw [h.results]
  cases plain.results with
  | nil => exact ⟨rfl, h⟩
  | cons value rest => exact ⟨rfl, { h with results := rfl }⟩

theorem showValue (value : Value) :
    SameWork Workspace.Decorates (painted.showValue limits value) (plain.showValue limits value) := by
  unfold Workspace.showValue
  cases Value.display limits.depth false value with
  | error cause => exact ⟨rfl, h⟩
  | ok shown => exact ⟨rfl, h.write (.refl _)⟩

/-- What the reporter does about an ending does not depend on colour. -/
theorem settled {α : Type} (ending : Ending) :
    SameWork Workspace.Decorates (guarded (α := α) (.error ending, painted))
      (guarded (.error ending, plain)) := by
  obtain ⟨reporter, hpainted, hplain⟩ := h.reporter
  have hsettled := fun color => reporter.settle_withColor color ending
  have hwritten : List.Forall₂ Output.Decorates
      (settlement painted.reporter ending).toList (settlement plain.reporter ending).toList := by
    simp only [settlement, hpainted, hplain, reporter.isEmpty_settle_withColor]
    split
    · exact .nil
    · exact .cons (.written (reporter.settle_decorates ending)) .nil
  have happended := h.append hwritten
  rw [guarded_error_eq, guarded_error_eq]
  refine ⟨?_, { happended with reporter := ⟨(reporter.settle ending).reporter, ?_, ?_⟩ }⟩
  · simp only [hpainted, hplain, (hsettled _).2]
  · simp only [hpainted, (hsettled _).1]
  · simp only [hplain, (hsettled _).1]

end Decorates

theorem sameWork_guarded {α : Type} {work work' : Except Ending α × Workspace}
    (h : SameWork Decorates work work') : SameWork Decorates (guarded work) (guarded work') := by
  rcases h.cases with ⟨ending, _, _, hleft, rfl, rfl⟩ | ⟨a, _, _, hleft, rfl, rfl⟩
  · exact hleft.settled ending
  · exact ⟨rfl, hleft⟩

/-! ### Sessions -/

/-- Takes a step, and tells what comes of it: an ending that goes on from it, or the value of its
    task, unless an ending was settled. -/
def carryOut (limits : Limits) (workspace : Workspace) (step : Step) :
    Except Ending (Option (Option Value)) × Workspace :=
  let out := workspace.attempt limits step.task
  if step.guarded then guarded out else (out.1.map some, out.2)

theorem take_eq (limits : Limits) (workspace : Workspace) (step : Step) :
    workspace.take limits step = (workspace.carryOut limits step).2 := by
  unfold take carryOut
  cases step.guarded <;> rfl

/-- What comes of each of some steps, one after another. -/
def outcomes (limits : Limits) (workspace : Workspace) :
    List Step → List (Except Ending (Option (Option Value)))
  | [] => []
  | step :: rest =>
    (workspace.carryOut limits step).1 :: outcomes limits (workspace.take limits step) rest

namespace Decorates

variable {painted plain : Workspace} (limits : Limits)

theorem attempt (h : painted.Decorates plain) (task : Task) :
    SameWork Workspace.Decorates (painted.attempt limits task) (plain.attempt limits task) := by
  cases task with
  | run source => exact (h.run limits source).map some
  | load file => exact (h.load limits file).map some
  | pop => exact h.pop.map some
  | check program => exact ⟨rfl, h.check program⟩

theorem carryOut (h : painted.Decorates plain) (step : Step) :
    SameWork Workspace.Decorates (painted.carryOut limits step) (plain.carryOut limits step) := by
  have hattempt := h.attempt limits step.task
  unfold Workspace.carryOut
  cases step.guarded with
  | true => exact sameWork_guarded hattempt
  | false => exact hattempt.map some

/-- A session comes to the same with colour and without. -/
theorem takeAll (h : painted.Decorates plain) (steps : List Step) :
    painted.outcomes limits steps = plain.outcomes limits steps ∧
      (painted.takeAll limits steps).Decorates (plain.takeAll limits steps) := by
  induction steps generalizing painted plain with
  | nil => exact ⟨rfl, h⟩
  | cons step rest ih =>
      have hstep := h.carryOut limits step
      have htaken : (painted.take limits step).Decorates (plain.take limits step) := by
        rw [take_eq, take_eq]
        exact hstep.left
      obtain ⟨houtcomes, hlast⟩ := ih htaken
      refine ⟨?_, hlast⟩
      rw [outcomes, outcomes, hstep.result, houtcomes]

end Decorates

end Workspace

/-! ### The console -/

/-- Whether two consoles are the same but for colour. -/
structure Console.Decorates (painted plain : Console) : Prop where
  workspace : painted.workspace.Decorates plain.workspace
  pending : painted.pending = plain.pending
  prompt : painted.prompt = plain.prompt

namespace Console

variable (limits : Limits)

section

variable {painted plain : Workspace} (h : painted.Decorates plain) (text : String)
include h

theorem evaluate_decorates :
    SameWork Workspace.Decorates (evaluate limits painted text) (evaluate limits plain text) := by
  unfold evaluate
  rcases (h.run limits text).cases with
    ⟨ending, _, _, hleft, hrun, hrun'⟩ | ⟨_, _, _, hleft, hrun, hrun'⟩
  · rw [hrun, hrun']
    exact ⟨rfl, hleft⟩
  · rw [hrun, hrun']
    simp only
    rcases hleft.pop.cases with
      ⟨ending, _, _, hleft, hpop, hpop'⟩ | ⟨value, _, _, hleft, hpop, hpop'⟩
    · rw [hpop, hpop']
      exact ⟨rfl, hleft⟩
    · rw [hpop, hpop']
      exact hleft.showValue limits value

theorem submit_decorates :
    SameWork Workspace.Decorates (submit limits painted text) (submit limits plain text) := by
  cases hsilent : isSilent text with
  | true =>
      rw [submit, submit, if_pos hsilent, if_pos hsilent]
      exact ⟨rfl, h⟩
  | false =>
      rw [submit_of_program hsilent, submit_of_program hsilent]
      exact (Workspace.sameWork_guarded (evaluate_decorates limits h text)).map _

end

namespace Decorates

variable {painted plain : Console}

theorem write (h : painted.Decorates plain) (text : String) :
    (painted.write text).Decorates (plain.write text) :=
  { h with workspace := h.workspace.write (.refl text) }

theorem enter (h : painted.Decorates plain) (line : String) :
    SameWork Console.Decorates (painted.enter limits line) (plain.enter limits line) := by
  unfold Console.enter
  rw [h.pending]
  dsimp only
  split
  · exact ⟨rfl, ⟨h.workspace, rfl, rfl⟩⟩
  · have hsubmit := submit_decorates limits h.workspace (plain.pending ++ line)
    exact ⟨hsubmit.result, ⟨hsubmit.left, rfl, rfl⟩⟩

theorem feed (h : painted.Decorates plain) (line : String) :
    SameWork Console.Decorates (painted.feed limits line) (plain.feed limits line) := by
  by_cases hnew : plain.pending = ""
  · have hnew' : painted.pending = "" := h.pending.trans hnew
    cases hline : Command.ofLine line with
    | program text =>
        rw [feed_of_program hnew hline, feed_of_program hnew' hline]
        exact (h.enter limits text).map _
    | _ =>
        simp only [Console.feed, hnew, hnew', hline]
        first | exact ⟨rfl, h⟩ | exact ⟨rfl, h.write _⟩
  · rw [feed_of_open hnew, feed_of_open (h.pending ▸ hnew)]
    exact (h.enter limits line).map _

/-- The console takes all lines in the same way with colour and without. -/
theorem converse (h : painted.Decorates plain) (lines : List String) :
    SameWork Console.Decorates (painted.converse limits lines) (plain.converse limits lines) := by
  have hfeed : ∀ {painted plain : Console} line, painted.Decorates plain →
      SameWork Console.Decorates ((painted.write painted.prompt).feed limits line)
        ((plain.write plain.prompt).feed limits line) := by
    intro painted plain line h
    rw [h.prompt]
    exact (h.write _).feed limits line
  induction lines generalizing painted plain with
  | nil =>
      unfold Console.converse
      rcases (hfeed "EOF" h).cases with
        ⟨ending, _, _, hleft, hfed, hfed'⟩ | ⟨ended, _, _, hleft, hfed, hfed'⟩
      · rw [hfed, hfed']
        exact ⟨rfl, hleft⟩
      · rw [hfed, hfed']
        cases ended <;> exact ⟨rfl, hleft⟩
  | cons line rest ih =>
      unfold Console.converse
      rcases (hfeed line h).cases with
        ⟨ending, _, _, hleft, hfed, hfed'⟩ | ⟨ended, _, _, hleft, hfed, hfed'⟩
      · rw [hfed, hfed']
        exact ⟨rfl, hleft⟩
      · rw [hfed, hfed']
        cases ended with
        | false => exact ih hleft
        | true => exact ⟨rfl, hleft⟩

end Decorates

end Console

/-! ### The program as a whole -/

/-- Whether two outcomes of the program are the same but for colour. -/
structure Outcome.Decorates (painted plain : Outcome) : Prop where
  status : painted.status = plain.status
  stdout : Text.Decorates painted.stdout plain.stdout
  stderr : painted.stderr = plain.stderr

namespace Program

theorem inWorkspace_decorates {console : Bool} {path : String}
    {work work' : Workspace → Except Ending Unit × Workspace}
    (h : ∀ {painted plain : Workspace}, painted.Decorates plain →
      SameWork Workspace.Decorates (work painted) (work' plain)) :
    (inWorkspace true console path work).Decorates (inWorkspace false console path work') := by
  obtain ⟨reporter, hreporter⟩ :
      ∃ reporter : Reporter, ∀ color, Reporter.new true color = reporter.withColor color :=
    ⟨Reporter.new true false, fun _ => rfl⟩
  generalize hglobal : Store.empty.createGlobal = opened
  obtain ⟨globals, store⟩ := opened
  simp only [inWorkspace, hglobal, hreporter, Workspace.create_withColor]
  cases hcreate : Workspace.create reporter path console store globals with
  | error complaint =>
      have hthrown := fun color => reporter.throw_withColor color complaint
      simp only [Except.map]
      refine ⟨?_, reporter.throw_decorates complaint, rfl⟩
      simp only [(hthrown _).2]
  | ok workspace =>
      obtain ⟨_, hopened⟩ := Process.opened_of_create hcreate
      have hempty : workspace.output = #[] := by rw [hopened, Process.opened]
      have hguarded := Workspace.sameWork_guarded (h (Workspace.decorates_withColor hempty))
      exact ⟨congrArg statusOf hguarded.result, hguarded.left.transcript, rfl⟩

theorem evaluate_decorates (limits : Limits) (source : Source) :
    (evaluate limits true source).Decorates (evaluate limits false source) := by
  refine inWorkspace_decorates fun {painted plain} h => ?_
  cases source with
  | nothing =>
      exact ⟨rfl, h.running ""⟩
  | text source =>
      simp only
      rcases (h.run limits source).cases with
        ⟨ending, _, _, hleft, hrun, hrun'⟩ | ⟨value, _, _, hleft, hrun, hrun'⟩
      · rw [hrun, hrun']
        exact ⟨rfl, hleft⟩
      · rw [hrun, hrun']
        exact hleft.showValue limits value

end Program

end CallLang
