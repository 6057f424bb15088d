/-
  CallLang/Proofs/Bookkeeping.lean
  ================================
  **What a workspace keeps track of.**

  A workspace keeps its scope, the values that have not been taken back, and the sources
  that its reporter knows.  The three change at different moments of a run: the source is
  registered before the text is read, the scope changes during the evaluation, and only
  at the end the value is kept and the source forgotten.  So it depends on the moment in
  which a run fails what it leaves behind.

  `Attempted` lists all ways in which a task can end, with everything that is left then.
  What the books say after any mix of steps follows from it.
-/
import CallLang.Proofs.Recovery
import CallLang.Proofs.Registrations
import CallLang.Proofs.Sequences

namespace CallLang

/-! ### Endings -/

theorem Stop.ending_ne_exit (reason : Stop) (status : Option Int) :
    reason.ending ≠ .exit status := by
  cases reason <;> exact nofun

namespace Reporter

variable {reporter : Reporter}

/-- A reporter that is not fatal forgets all sources when it settles an ending, unless the
    ending is an exit. -/
theorem reporter_settle (h : reporter.fatal = false) {ending : Ending}
    (hexit : ∀ status, ending ≠ .exit status) (hfinished : ending ≠ .unfinished) :
    (reporter.settle ending).reporter = reporter.clear := by
  cases ending with
  | complaint complaint => simp [settle, throw, h]
  | interrupt => simp [settle, throw, h]
  | breakdown cause => cases cause <;> simp [settle, throw, h]
  | exit status => exact absurd rfl (hexit status)
  | unfinished => exact absurd rfl hfinished

/-- Forgetting a source that has just been registered forgets what was registered under its path
    and nothing else. -/
theorem books_remove (reporter : Reporter) (path source : String) :
    let after := (reporter.register path source).remove path
    (∀ other, after.sources.get? other =
      if other = path then none else reporter.sources.get? other) ∧
    after.sources.names = reporter.sources.names.filter (· ≠ path) ∧
    after.current = after.sources.names.getLast? := by
  intro after
  have hsources : after.sources = reporter.sources.erase path :=
    Table.erase_set reporter.sources path source
  refine ⟨fun other => ?_, ?_, Table.newest?_eq after.sources⟩
  · rw [hsources, Table.get?_erase]
  · rw [hsources, Table.names_erase]

theorem fatal_settle (reporter : Reporter) (ending : Ending) :
    (reporter.settle ending).reporter.fatal = reporter.fatal := by
  rcases reporter.settle_cases ending with ⟨-, heq⟩ | ⟨complaint, -, heq⟩
  · rw [heq]
  · rw [heq]
    rcases (reporter.throw_cases complaint).2 with heq | heq <;> rw [heq]
    rfl

end Reporter

namespace Workspace

/-! ### Steps -/

/-- What a workspace can be asked to do. -/
inductive Task where
  | run (source : String)
  /-- Run the program of a file, given the bytes of the file if it could be opened. -/
  | load (file : Option (List UInt8))
  | pop
  | check (program : Expr)

/-- A task by itself or under the care of the reporter. -/
structure Step where
  task : Task
  guarded : Bool

/-- The text that a task runs, if it comes to that. -/
def source? (workspace : Workspace) : Task → Option String
  | .run source => some source
  | .load (some bytes) =>
    if workspace.path.toList.contains '\x00' then none
    else
      match Text.decode bytes with
      | .ok text => some (String.ofList (Text.unifyLineEnds text))
      | .error _ => none
  | _ => none

/-- What comes of work, its value being one of those that a task may have. -/
def valued (out : Except Ending Value × Workspace) : Except Ending (Option Value) × Workspace :=
  (out.1.map some, out.2)

/-- What comes of a task by itself.  A check has no value. -/
def attempt (limits : Limits) (workspace : Workspace) :
    Task → Except Ending (Option Value) × Workspace
  | .run source => valued (workspace.run limits source)
  | .load file => valued (workspace.load limits file)
  | .pop => valued workspace.pop
  | .check program => (.ok none, workspace.check program)

/-- The workspace after a step, whether or not an ending goes on from it. -/
def take (limits : Limits) (workspace : Workspace) (step : Step) : Workspace :=
  let out := workspace.attempt limits step.task
  if step.guarded then (guarded out).2 else out.2

def takeAll (limits : Limits) (workspace : Workspace) (steps : List Step) : Workspace :=
  steps.foldl (take limits) workspace

/-- The tasks of some steps with what comes of them, one after another. -/
def attempts (limits : Limits) (workspace : Workspace) :
    List Step → List (Task × Except Ending (Option Value))
  | [] => []
  | step :: rest =>
    (step.task, (workspace.attempt limits step.task).1) ::
      attempts limits (workspace.take limits step) rest

/-- The values of successful runs that have not been taken back, the latest first, given those
    there were before and what has been attempted since. -/
def unpopped (values : List Value) : List (Task × Except Ending (Option Value)) → List Value
  | [] => values
  | (.pop, .ok _) :: rest => unpopped values.tail rest
  | (_, .ok (some value)) :: rest => unpopped (value :: values) rest
  | _ :: rest => unpopped values rest

variable {limits : Limits} {workspace : Workspace}

/-! ### Tasks by themselves -/

/-- How a task can end by itself, and what it leaves. -/
inductive Attempted (limits : Limits) (workspace : Workspace) :
    Task → Except Ending (Option Value) × Workspace → Prop where
  | unread {task : Task} {source : String} {reason : Stop}
      (hsource : workspace.source? task = some source)
      (hparse : Expr.parse limits.depth source = .error reason) :
      Attempted limits workspace task (.error reason.ending, workspace.running source)
  | stopped {task : Task} {source : String} {program : Expr} {reason : Stop} {store : Store}
      (hsource : workspace.source? task = some source)
      (hparse : Expr.parse limits.depth source = .ok program) :
      Attempted limits workspace task
        (.error reason.ending, (workspace.running source).evaluated program store)
  | valued {task : Task} {source : String} {program : Expr} {value : Value} {store : Store}
      (hsource : workspace.source? task = some source)
      (hparse : Expr.parse limits.depth source = .ok program) :
      Attempted limits workspace task
        (.ok (some value), ((workspace.running source).evaluated program store).succeeded value)
  | unreadable {file : Option (List UInt8)} {ending : Ending}
      (hsource : workspace.source? (.load file) = none) (hexit : ∀ status, ending ≠ .exit status) :
      Attempted limits workspace (.load file) (.error ending, workspace)
  | empty (h : workspace.results = []) :
      Attempted limits workspace .pop (.error (.breakdown .noResult), workspace)
  | popped {value : Value} {rest : List Value} (h : workspace.results = value :: rest) :
      Attempted limits workspace .pop (.ok (some value), { workspace with results := rest })
  | checked (program : Expr) :
      Attempted limits workspace (.check program) (.ok none, workspace.check program)

/-- A task that comes to a text runs it. -/
theorem attempt_of_source {task : Task} {source : String}
    (h : workspace.source? task = some source) :
    workspace.attempt limits task = valued (workspace.run limits source) := by
  cases task with
  | run text =>
      cases h
      rfl
  | load file =>
      cases file with
      | none => cases h
      | some bytes =>
          simp only [source?] at h
          split at h
          · cases h
          · next hnull =>
              split at h
              · next text hdecode =>
                  cases h
                  simp only [attempt, load, if_neg hnull, hdecode]
              · cases h
  | pop => cases h
  | check program => cases h

/-- Loading fails before anything is changed unless it comes to a text. -/
theorem load_of_no_source (limits : Limits) {file : Option (List UInt8)}
    (h : workspace.source? (.load file) = none) :
    ∃ ending, workspace.load limits file = (.error ending, workspace) ∧
      ∀ status, ending ≠ .exit status := by
  unfold load
  split
  · exact ⟨_, rfl, nofun⟩
  · next hnull =>
      cases file with
      | none => exact ⟨_, rfl, nofun⟩
      | some bytes =>
          simp only [source?, if_neg hnull] at h
          cases hdecode : Text.decode bytes with
          | ok text =>
              rw [hdecode] at h
              cases h
          | error fault =>
              simp only [hdecode]
              exact ⟨_, rfl, nofun⟩

theorem attempted (limits : Limits) (workspace : Workspace) (task : Task) :
    Attempted limits workspace task (workspace.attempt limits task) := by
  cases hsource : workspace.source? task with
  | some source =>
      rw [attempt_of_source hsource]
      cases hparse : Expr.parse limits.depth source with
      | error reason =>
          rw [run_of_error hparse]
          exact .unread hsource hparse
      | ok program =>
          rw [run_of_ok hparse]
          generalize limits.eval program workspace.scope workspace.store.quiet = out
          obtain ⟨reason | value, store⟩ := out
          · exact .stopped hsource hparse
          · exact .valued hsource hparse
  | none =>
      cases task with
      | run source => cases hsource
      | load file =>
          obtain ⟨ending, hload, hexit⟩ := load_of_no_source limits hsource
          rw [attempt, hload]
          exact .unreadable hsource hexit
      | pop =>
          simp only [attempt, pop]
          cases hresults : workspace.results with
          | nil => exact .empty hresults
          | cons value rest => exact .popped hresults
      | check program => exact .checked program

/-! ### Steps -/

theorem printed_write (workspace : Workspace) (text : String) :
    (workspace.write text).printed = workspace.printed := by
  simp [printed, write, Output.line?]

/-- The reporter's care changes nothing but the reporter, and writes no more than it adds. -/
structure Cared (workspace after : Workspace) : Prop where
  path : after.path = workspace.path
  scope : after.scope = workspace.scope
  store : after.store = workspace.store
  results : after.results = workspace.results
  printed : after.printed = workspace.printed
  output : ∃ written, after.output = workspace.output ++ written

theorem Cared.refl (workspace : Workspace) : Cared workspace workspace :=
  ⟨rfl, rfl, rfl, rfl, rfl, #[], Array.append_empty.symm⟩

theorem cared_write (workspace : Workspace) (text : String) :
    Cared workspace (workspace.write text) :=
  ⟨rfl, rfl, rfl, rfl, workspace.printed_write text, #[.written text], Array.push_eq_append⟩

theorem cared_guarded {α : Type} (out : Except Ending α × Workspace) :
    Cared out.2 (guarded out).2 := by
  obtain ⟨ending | a, workspace⟩ := out
  · have hwritten := workspace.cared_write (workspace.reporter.settle ending).text
    unfold guarded
    simp only
    by_cases hempty : (workspace.reporter.settle ending).text.isEmpty = true
    · simp only [if_pos hempty]
      cases (workspace.reporter.settle ending).leaving <;> exact { Cared.refl workspace with }
    · simp only [if_neg hempty]
      cases (workspace.reporter.settle ending).leaving <;> exact { hwritten with }
  · exact .refl workspace

theorem cared_take (limits : Limits) (workspace : Workspace) (step : Step) :
    Cared (workspace.attempt limits step.task).2 (workspace.take limits step) := by
  unfold take
  split
  · exact cared_guarded _
  · exact .refl _

theorem take_of_bare {step : Step} (h : step.guarded = false) :
    workspace.take limits step = (workspace.attempt limits step.task).2 := by
  simp [take, h]

theorem take_of_ok {step : Step} {result : Option Value}
    (h : (workspace.attempt limits step.task).1 = .ok result) :
    workspace.take limits step = (workspace.attempt limits step.task).2 := by
  unfold take
  generalize workspace.attempt limits step.task = out at h ⊢
  obtain ⟨_, after⟩ := out
  obtain rfl := h
  exact ite_self after

theorem reporter_take_of_error {step : Step} {ending : Ending} (hguarded : step.guarded = true)
    (h : (workspace.attempt limits step.task).1 = .error ending) :
    (workspace.take limits step).reporter =
      ((workspace.attempt limits step.task).2.reporter.settle ending).reporter := by
  unfold take
  rw [if_pos hguarded]
  generalize workspace.attempt limits step.task = out at h ⊢
  obtain ⟨_, after⟩ := out
  obtain rfl := h
  obtain ⟨output, heq⟩ := guarded_error (α := Option Value) ending after
  rw [heq]

/-- What a step does to the books, given what comes of its task by itself and the workspace that
    is left. -/
structure Books (limits : Limits) (before : Workspace) (step : Step)
    (result : Except Ending (Option Value)) (after : Workspace) : Prop where
  /-- Running a text by itself and as that of a file is the same. -/
  ran : ∀ source, before.source? step.task = some source →
    result = (before.run limits source).1.map some
  /-- What is taken back is the latest value; it is a breakdown if there is none. -/
  popped : step.task = .pop → result = match before.results with
    | [] => .error (.breakdown .noResult)
    | value :: _ => .ok (some value)
  /-- A successful run forgets its own source and no other one.  The last that remains is
      current then. -/
  succeeded : ∀ source value, before.source? step.task = some source → result = .ok value →
    (∀ path, after.reporter.sources.get? path =
      if path = before.path then none else before.reporter.sources.get? path) ∧
    after.reporter.sources.names = before.reporter.sources.names.filter (· ≠ before.path) ∧
    after.reporter.current = after.reporter.sources.names.getLast?
  /-- A failing run keeps the results.  By itself it leaves its text as the current source. -/
  failed : ∀ source ending, before.source? step.task = some source → result = .error ending →
    after.results = before.results ∧
      (step.guarded = false → after.reporter.current = some before.path ∧
        after.reporter.sources.get? before.path = some source)
  /-- A text that is no program changes neither scopes nor what was printed. -/
  unread : ∀ source reason, before.source? step.task = some source →
    Expr.parse limits.depth source = .error reason →
    result = .error reason.ending ∧ after.scope = before.scope ∧ after.store = before.store ∧
      after.printed = before.printed
  /-- Loading a file that cannot be read or decoded fails, and by itself it changes nothing. -/
  unreadable : ∀ file, step.task = .load file → before.source? step.task = none →
    (∃ ending, result = .error ending) ∧ (step.guarded = false → after = before)
  /-- Taking back a value that is not there changes nothing by itself. -/
  unpoppable : step.task = .pop → before.results = [] → step.guarded = false → after = before
  /-- A check changes nothing but the output. -/
  checked : ∀ program, step.task = .check program → result = .ok none ∧
    ∃ output, after = { before with output }
  /-- Under the care of a reporter that is not fatal, whatever fails leaves no sources. -/
  settled : ∀ ending, step.guarded = true → before.reporter.fatal = false →
    result = .error ending → ending ≠ .unfinished →
    after.reporter.sources = [] ∧ after.reporter.current = none

/-! ### One step -/

section

variable {before : Workspace} {task : Task} {out : Except Ending (Option Value) × Workspace}
  {source : String}

theorem Attempted.fatal (h : Attempted limits before task out) :
    out.2.reporter.fatal = before.reporter.fatal := by
  cases h with
  | checked program => rw [check_eq]
  | _ => rfl

theorem Attempted.place (h : Attempted limits before task out) :
    out.2.path = before.path ∧ out.2.scope = before.scope := by
  cases h with
  | checked program =>
      rw [check_eq]
      exact ⟨rfl, rfl⟩
  | _ => exact ⟨rfl, rfl⟩

/-- Nothing that can be asked of a workspace is to exit. -/
theorem Attempted.ne_exit (h : Attempted limits before task out) (status : Option Int) :
    out.1 ≠ .error (.exit status) := by
  cases h with
  | unread _ _ => exact fun heq => Stop.ending_ne_exit _ status (Except.error.inj heq)
  | stopped _ _ => exact fun heq => Stop.ending_ne_exit _ status (Except.error.inj heq)
  | unreadable _ hexit => exact fun heq => hexit status (Except.error.inj heq)
  | _ => exact nofun

/-- A task that comes to a text fails at reading it, or else in the evaluation or not at all. -/
theorem Attempted.of_source (h : Attempted limits before task out)
    (hsource : before.source? task = some source) :
    (∃ reason, Expr.parse limits.depth source = .error reason ∧
        out = (.error reason.ending, before.running source)) ∨
      ∃ program store, Expr.parse limits.depth source = .ok program ∧
        let after := (before.running source).evaluated program store
        (∃ reason : Stop, out = (.error reason.ending, after)) ∨
          ∃ value, out = (.ok (some value), after.succeeded value) := by
  cases h with
  | unread hsource' hparse =>
      obtain rfl := Option.some.inj (hsource.symm.trans hsource')
      exact .inl ⟨_, hparse, rfl⟩
  | stopped hsource' hparse =>
      obtain rfl := Option.some.inj (hsource.symm.trans hsource')
      exact .inr ⟨_, _, hparse, .inl ⟨_, rfl⟩⟩
  | valued hsource' hparse =>
      obtain rfl := Option.some.inj (hsource.symm.trans hsource')
      exact .inr ⟨_, _, hparse, .inr ⟨_, rfl⟩⟩
  | unreadable hnone _ => cases hsource.symm.trans hnone
  | _ => cases hsource

/-- A task that comes to no text changes no scope. -/
theorem Attempted.store_eq (h : Attempted limits before task out)
    (hsource : before.source? task = none) : out.2.store = before.store := by
  cases h with
  | unread hsome _ => cases hsource.symm.trans hsome
  | stopped hsome _ => cases hsource.symm.trans hsome
  | valued hsome _ => cases hsource.symm.trans hsome
  | checked program => rw [check_eq]
  | _ => rfl

theorem Attempted.succeeded (h : Attempted limits before task out)
    (hsource : before.source? task = some source) {value : Option Value}
    (hresult : out.1 = .ok value) :
    out.2.reporter = (before.reporter.register before.path source).remove before.path := by
  rcases h.of_source hsource with
    ⟨reason, -, rfl⟩ | ⟨program, store, -, ⟨reason, rfl⟩ | ⟨result, rfl⟩⟩
  · cases hresult
  · cases hresult
  · rfl

theorem Attempted.failed (h : Attempted limits before task out)
    (hsource : before.source? task = some source) {ending : Ending}
    (hresult : out.1 = .error ending) :
    out.2.results = before.results ∧
      out.2.reporter = before.reporter.register before.path source := by
  rcases h.of_source hsource with
    ⟨reason, -, rfl⟩ | ⟨program, store, -, ⟨reason, rfl⟩ | ⟨result, rfl⟩⟩
  · exact ⟨rfl, rfl⟩
  · exact ⟨rfl, rfl⟩
  · cases hresult

theorem Attempted.unread_eq (h : Attempted limits before task out)
    (hsource : before.source? task = some source) {reason : Stop}
    (hparse : Expr.parse limits.depth source = .error reason) :
    out = (.error reason.ending, before.running source) := by
  rcases h.of_source hsource with ⟨reason', hparse', rfl⟩ | ⟨program, store, hparse', -⟩
  · obtain rfl := Except.error.inj (hparse.symm.trans hparse')
    rfl
  · cases hparse.symm.trans hparse'

theorem Attempted.unreadable_eq {file : Option (List UInt8)}
    (h : Attempted limits before (.load file) out) (hnone : before.source? (.load file) = none) :
    (∃ ending, out.1 = .error ending) ∧ out.2 = before := by
  cases h with
  | unreadable _ _ => exact ⟨⟨_, rfl⟩, rfl⟩
  | _ hsource => cases hsource.symm.trans hnone

/-- The latest value is taken back, if there is one. -/
theorem Attempted.pop_eq (h : Attempted limits before .pop out) :
    out = match before.results with
      | [] => (.error (.breakdown .noResult), before)
      | value :: rest => (.ok (some value), { before with results := rest }) := by
  cases h with
  | empty hresults => rw [hresults]
  | popped hresults => rw [hresults]
  | _ hsource => cases hsource

theorem Attempted.check_eq {program : Expr} (h : Attempted limits before (.check program) out) :
    out = (.ok none, before.check program) := by
  cases h with
  | checked program => rfl
  | _ hsource => cases hsource

end

theorem place_take (limits : Limits) (before : Workspace) (step : Step) :
    (before.take limits step).path = before.path ∧
      (before.take limits step).scope = before.scope := by
  have hcared := cared_take limits before step
  obtain ⟨hpath, hscope⟩ := (attempted limits before step.task).place
  exact ⟨hcared.path.trans hpath, hcared.scope.trans hscope⟩

theorem fatal_take (limits : Limits) (before : Workspace) (step : Step) :
    (before.take limits step).reporter.fatal = before.reporter.fatal := by
  rw [← (attempted limits before step.task).fatal]
  cases hresult : (before.attempt limits step.task).1 with
  | ok value => rw [take_of_ok hresult]
  | error ending =>
      cases hguarded : step.guarded with
      | false => rw [take_of_bare hguarded]
      | true => rw [reporter_take_of_error hguarded hresult, Reporter.fatal_settle]

/-- The books are kept in every step. -/
theorem books_take (limits : Limits) (before : Workspace) (step : Step) :
    Books limits before step (before.attempt limits step.task).1 (before.take limits step) := by
  have hattempted := attempted limits before step.task
  have hcared := cared_take limits before step
  constructor
  case ran =>
    intro source hsource
    rw [attempt_of_source hsource]
    rfl
  case popped =>
    intro hpop
    rw [hpop] at hattempted ⊢
    rw [hattempted.pop_eq]
    cases before.results <;> rfl
  case succeeded =>
    intro source value hsource hresult
    rw [take_of_ok hresult, hattempted.succeeded hsource hresult]
    exact Reporter.books_remove before.reporter before.path source
  case failed =>
    intro source ending hsource hresult
    obtain ⟨hresults, hreporter⟩ := hattempted.failed hsource hresult
    refine ⟨hcared.results.trans hresults, fun hbare => ?_⟩
    rw [take_of_bare hbare, hreporter]
    exact ⟨rfl, (Table.get?_set _ _ _ _).trans (if_pos rfl)⟩
  case unread =>
    intro source reason hsource hparse
    rw [hattempted.unread_eq hsource hparse] at hcared ⊢
    exact ⟨rfl, hcared.scope, hcared.store, hcared.printed⟩
  case unreadable =>
    intro file hload hnone
    rw [hload] at hattempted hnone
    obtain ⟨hfails, hsame⟩ := hattempted.unreadable_eq hnone
    rw [hload]
    refine ⟨hfails, fun hbare => ?_⟩
    rw [take_of_bare hbare, hload, hsame]
  case unpoppable =>
    intro hpop hempty hbare
    rw [hpop] at hattempted
    rw [take_of_bare hbare, hpop, hattempted.pop_eq, hempty]
  case checked =>
    intro program hcheck
    rw [hcheck] at hattempted
    have hresult : (before.attempt limits step.task).1 = .ok none := by
      rw [hcheck, hattempted.check_eq]
    rw [take_of_ok hresult, hcheck]
    exact ⟨rfl, _, before.check_eq program⟩
  case settled =>
    intro ending hguarded hfatal hresult hfinished
    have hexit : ∀ status, ending ≠ .exit status := by
      rintro status rfl
      exact hattempted.ne_exit status hresult
    rw [reporter_take_of_error hguarded hresult,
      Reporter.reporter_settle (hattempted.fatal.trans hfatal) hexit hfinished]
    exact ⟨rfl, rfl⟩

/-- What a step does to the values that have not been taken back. -/
theorem results_take (limits : Limits) (before : Workspace) (step : Step) :
    (before.take limits step).results =
      unpopped before.results [(step.task, (before.attempt limits step.task).1)] := by
  rw [(cared_take limits before step).results]
  have hattempted := attempted limits before step.task
  generalize before.attempt limits step.task = out at hattempted ⊢
  generalize step.task = task at hattempted ⊢
  cases hattempted with
  | valued hsource _ => cases task <;> first | rfl | cases hsource
  | unread hsource _ => cases task <;> rfl
  | stopped hsource _ => cases task <;> rfl
  | unreadable _ _ => rfl
  | empty h => rfl
  | popped h => exact (congrArg List.tail h).symm
  | checked program =>
      rw [before.check_eq program]
      rfl

/-! ### Any number of steps -/

theorem unpopped_cons (values : List Value) (first : Task × Except Ending (Option Value))
    (rest : List (Task × Except Ending (Option Value))) :
    unpopped values (first :: rest) = unpopped (unpopped values [first]) rest := by
  obtain ⟨task, ending | _ | value⟩ := first <;> cases task <;> rfl

theorem place_takeAll (limits : Limits) (workspace : Workspace) (steps : List Step) :
    let last := workspace.takeAll limits steps
    last.path = workspace.path ∧ last.scope = workspace.scope ∧
      last.reporter.fatal = workspace.reporter.fatal := by
  induction steps generalizing workspace with
  | nil => exact ⟨rfl, rfl, rfl⟩
  | cons step rest ih =>
      obtain ⟨hpath, hscope, hfatal⟩ := ih (workspace.take limits step)
      obtain ⟨hpath', hscope'⟩ := place_take limits workspace step
      have hfatal' := fatal_take limits workspace step
      exact ⟨hpath.trans hpath', hscope.trans hscope', hfatal.trans hfatal'⟩

theorem results_takeAll (limits : Limits) (workspace : Workspace) (steps : List Step) :
    (workspace.takeAll limits steps).results =
      unpopped workspace.results (workspace.attempts limits steps) := by
  induction steps generalizing workspace with
  | nil => rfl
  | cons step rest ih =>
      rw [attempts, unpopped_cons, ← results_take]
      exact ih (workspace.take limits step)

/-- After any mix of steps, the results are the values of the successful runs that have not been
    taken back, and the books are kept in whatever step comes next. -/
theorem books_kept (limits : Limits) (workspace : Workspace) (steps : List Step) :
    let before := workspace.takeAll limits steps
    before.results = unpopped workspace.results (workspace.attempts limits steps) ∧
      before.path = workspace.path ∧ before.scope = workspace.scope ∧
      before.reporter.fatal = workspace.reporter.fatal ∧
      ∀ step, Books limits before step (before.attempt limits step.task).1
        (before.take limits step) := by
  intro before
  obtain ⟨hpath, hscope, hfatal⟩ := place_takeAll limits workspace steps
  exact ⟨results_takeAll limits workspace steps, hpath, hscope, hfatal, books_take limits before⟩

/-- A text that fails by itself stays registered under the path of the workspace until the next
    run, which forgets it if it succeeds; the values of both runs that succeed are kept. -/
example :
    let workspace : Workspace :=
      { path := "a", store := Store.empty, scope := 0, reporter := .new false false, results := [],
        output := #[] }
    let steps (tasks : List Task) : List Step := tasks.map (⟨·, false⟩)
    let limits : Limits := ⟨20, 20⟩
    let failed := workspace.takeAll limits (steps [.run "1", .run "x"])
    failed.reporter.sources = [("a", "x")] ∧ failed.results.length = 1 ∧
      (failed.takeAll limits (steps [.run "2"])).reporter.sources = [] ∧
      (failed.takeAll limits (steps [.run "2"])).results.length = 2 := by
  decide +kernel

end Workspace

end CallLang
