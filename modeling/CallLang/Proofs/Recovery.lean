/-
  CallLang/Proofs/Recovery.lean
  =============================
  **What a program leaves behind.**

  Whatever becomes of a program that has been typed in, it leaves nothing behind but
  its definitions and its output: its value is not kept, and its source is not
  registered any more (`Workspace.Idle`).  So every line is taken in the same
  circumstances.

  Mistakes and too deep recursion do not end the console.  A breakdown over the size
  of a number does: it is reported, and then it leaves the console.
-/
import CallLang.Proofs.Blocks
import CallLang.Proofs.Executions
import CallLang.Proofs.PlainRuns

namespace CallLang

/-! ### Breakdowns -/

/-- Whether a breakdown is over the size of a number. -/
def Breakdown.Numeric : Breakdown → Prop
  | .beyondDoubles | .longInteger | .longNumeral _ => True
  | _ => False

section

variable {cause : Breakdown}

theorem numeric_of_parse {limit : Nat} {source : String}
    (h : Expr.parse limit source = .error (.breakdown cause)) :
    cause = .tooDeep ∨ cause.Numeric := by
  by_cases hdeep : cause = .tooDeep
  · exact .inl hdeep
  · have hended : Ended (Expr.parse limit source) := h ▸ ended_breakdown hdeep
    obtain ⟨digits, -, -, rfl⟩ := (Reader.parse_breakdown_iff hended).1 h
    exact .inr trivial

theorem numeric_of_eval {limits : Limits} {program : Expr} {scope : ScopeId} {store : Store}
    (hprogram : program.Plain) (hstore : store.Plain)
    (h : (limits.eval program scope store).1 = .error (.breakdown cause)) :
    cause = .tooDeep ∨ cause.Numeric := by
  by_cases hdeep : cause = .tooDeep
  · exact .inl hdeep
  · have hplace : cause ≠ .noPlace := (plain_eval limits hprogram scope hstore).2 _ h
    have hrun : (Moment.run ⟨program, scope, store⟩ limits).1 = .error (.breakdown cause) := h
    obtain ⟨last, -, callee, values, after, -, hbreaks⟩ :=
      Moment.exists_of_breaks hdeep hplace hrun
    rcases hbreaks.cause with rfl | rfl <;> exact .inr trivial

theorem numeric_of_display {limit : Nat} {nested : Bool} {value : Value}
    (h : value.display limit nested = .error cause) : cause = .tooDeep ∨ cause.Numeric := by
  rcases Value.error_of_display h with rfl | rfl
  · exact .inl rfl
  · exact .inr trivial

end

/-! ### The reporter -/

namespace Reporter

variable {reporter : Reporter}

/-- Registering a source and forgetting it again leaves a reporter that knows no sources. -/
theorem remove_register (h : reporter.sources = []) (path source : String) :
    (reporter.register path source).remove path = reporter.clear := by
  simp [register, remove, clear, h, Table.set, Table.erase, Table.newest?]

/-- A reporter that is not fatal forgets all sources when a program stops early. -/
theorem reporter_settle_stop (h : reporter.fatal = false) {reason : Stop}
    (hfinished : reason ≠ .unfinished) :
    (reporter.settle reason.ending).reporter = reporter.clear := by
  cases reason with
  | mistake cause place => simp [Stop.ending, settle, throw, h]
  | breakdown cause => cases cause <;> simp [Stop.ending, settle, throw, h]
  | unfinished => exact absurd rfl hfinished

/-- Of what stops a program early only a breakdown goes on, unless it is that something nests
    too deep. -/
theorem leaving_settle_stop (h : reporter.fatal = false) {reason : Stop}
    (hfinished : reason ≠ .unfinished) :
    (reporter.settle reason.ending).leaving = none ∧
        (∀ cause, reason = .breakdown cause → cause = .tooDeep) ∨
      ∃ cause, reason = .breakdown cause ∧ cause ≠ .tooDeep ∧
        (reporter.settle reason.ending).leaving = some (.breakdown cause) := by
  cases reason with
  | mistake cause place => simp [Stop.ending, settle, throw, h]
  | breakdown cause => cases cause <;> simp [Stop.ending, settle, throw, h]
  | unfinished => exact absurd rfl hfinished

end Reporter

/-! ### Workspaces -/

namespace Workspace

/-- Whether nothing is left over from earlier programs but definitions and output. -/
structure Idle (workspace : Workspace) : Prop where
  results : workspace.results = []
  sources : workspace.reporter.sources = []
  current : workspace.reporter.current = none

/-- What holds of a workspace before and after every program that is typed in. -/
structure Ready (workspace : Workspace) : Prop extends workspace.Idle where
  nonfatal : workspace.reporter.fatal = false
  plain : workspace.store.Plain

/-- What may come of a program before anything has been settled. -/
inductive Outcome : Except Ending Unit × Workspace → Prop where
  | shown {workspace : Workspace} (h : workspace.Ready) : Outcome (.ok (), workspace)
  | stopped {reason : Stop} {workspace : Workspace} (hresults : workspace.results = [])
      (hnonfatal : workspace.reporter.fatal = false) (hplain : workspace.store.Plain)
      (hcause : ∀ cause, reason = .breakdown cause → cause = .tooDeep ∨ cause.Numeric) :
      Outcome (.error reason.ending, workspace)

variable {limits : Limits} {workspace : Workspace}

/-- A program that has got a value leaves its definitions and its output, once the value is
    taken back. -/
theorem Ready.succeeded (h : workspace.Ready) (text : String) (program : Expr) {store : Store}
    (hstore : store.Plain) (value : Value) :
    Ready { ((workspace.running text).evaluated program store).succeeded value with
      results := workspace.results } := by
  have hreporter : (((workspace.running text).evaluated program store).succeeded value).reporter =
      workspace.reporter.clear := Reporter.remove_register h.sources workspace.path text
  constructor
  · exact ⟨h.results, by rw [hreporter]; rfl, by rw [hreporter]; rfl⟩
  · rw [hreporter]
    exact h.nonfatal
  · exact hstore

theorem Ready.write (h : workspace.Ready) (text : String) : (workspace.write text).Ready :=
  { h with }

theorem outcome_evaluate (limits : Limits) (h : workspace.Ready) (text : String) :
    Outcome (Console.evaluate limits workspace text) := by
  cases hparse : Expr.parse limits.depth text with
  | error reason =>
      rw [Console.evaluate, run_of_error hparse]
      refine .stopped h.results h.nonfatal h.plain ?_
      rintro cause rfl
      exact numeric_of_parse hparse
  | ok program =>
      have hprogram := Expr.plain_of_parse hparse
      have hquiet : workspace.store.quiet.Plain := h.plain
      have hplain := (plain_eval limits hprogram workspace.scope hquiet).1
      have hnumeric : ∀ cause,
          (limits.eval program workspace.scope workspace.store.quiet).1 =
            .error (.breakdown cause) → cause = .tooDeep ∨ cause.Numeric :=
        fun cause => numeric_of_eval hprogram hquiet
      rw [Console.evaluate, run_of_ok hparse]
      generalize limits.eval program workspace.scope workspace.store.quiet = out
        at hplain hnumeric ⊢
      obtain ⟨reason | value, store⟩ := out
      · refine .stopped h.results h.nonfatal hplain ?_
        rintro cause rfl
        exact hnumeric cause rfl
      · have hready := h.succeeded text program hplain value
        simp only [pop, succeeded]
        cases hdisplay : value.display limits.depth false with
        | ok shown => exact .shown (hready.write (shown ++ "\n"))
        | error cause =>
            have hcause : ∀ other, Stop.breakdown cause = .breakdown other →
                other = .tooDeep ∨ other.Numeric := by
              rintro _ ⟨rfl⟩
              exact numeric_of_display hdisplay
            exact .stopped hready.results hready.nonfatal hready.plain hcause

/-- What is written when an ending is settled. -/
def settlement (reporter : Reporter) (ending : Ending) : Array Output :=
  let text := (reporter.settle ending).text
  if text.isEmpty then #[] else #[.written text]

theorem guarded_error_eq {α : Type} (ending : Ending) (workspace : Workspace) :
    guarded (α := α) (.error ending, workspace) =
      (match (workspace.reporter.settle ending).leaving with
        | none => .ok none
        | some ending => .error ending,
        { workspace with
          reporter := (workspace.reporter.settle ending).reporter
          output := workspace.output ++ settlement workspace.reporter ending }) := by
  unfold guarded settlement
  by_cases hempty : (workspace.reporter.settle ending).text.isEmpty
  · simp only [if_pos hempty, Array.append_empty]
    cases (workspace.reporter.settle ending).leaving <;> rfl
  · simp only [if_neg hempty, write, Array.push_eq_append]
    cases (workspace.reporter.settle ending).leaving <;> rfl

theorem guarded_error {α : Type} (ending : Ending) (workspace : Workspace) :
    let settled := workspace.reporter.settle ending
    ∃ output, guarded (α := α) (.error ending, workspace) =
      (match settled.leaving with
        | none => .ok none
        | some ending => .error ending,
        { workspace with reporter := settled.reporter, output }) :=
  ⟨_, guarded_error_eq ending workspace⟩

/-- How the work on a program ends under the care of the reporter, given how the program
    ends: the workspace is ready for the next one, and only a breakdown over the size of
    a number is passed on. -/
structure Settles {α : Type} (ended : Except Ending Unit) (result : Except Ending α)
    (workspace : Workspace) : Prop where
  ready : workspace.Ready
  cases : (∃ a, result = .ok a) ∨
    ∃ cause : Breakdown, cause.Numeric ∧ result = .error (.breakdown cause)
  breakdown_iff : ∀ cause : Breakdown, result = .error (.breakdown cause) ↔
    ended = .error (.breakdown cause) ∧ cause ≠ .tooDeep

theorem Settles.map {α β : Type} {ended : Except Ending Unit} {result : Except Ending α}
    (h : Settles ended result workspace) (f : α → β) : Settles ended (result.map f) workspace where
  ready := h.ready
  cases := by
    rcases h.cases with ⟨a, rfl⟩ | ⟨cause, hnumeric, rfl⟩
    · exact .inl ⟨f a, rfl⟩
    · exact .inr ⟨cause, hnumeric, rfl⟩
  breakdown_iff := by
    intro cause
    rw [← h.breakdown_iff cause]
    cases result <;> simp [Except.map]

theorem settles_ok {α : Type} (h : workspace.Ready) (a : α) : Settles (.ok ()) (.ok a) workspace :=
  ⟨h, .inl ⟨a, rfl⟩, by simp⟩

theorem Outcome.settles {out : Except Ending Unit × Workspace} (h : Outcome out)
    (hfinished : (guarded out).1 ≠ .error .unfinished) :
    Settles out.1 (guarded out).1 (guarded out).2 := by
  cases h with
  | shown h => exact settles_ok h _
  | @stopped reason workspace hresults hnonfatal hplain hcause =>
      obtain ⟨output, hguarded⟩ := guarded_error (α := Unit) reason.ending workspace
      rw [hguarded] at hfinished ⊢
      have hstop : reason ≠ .unfinished := by
        rintro rfl
        exact hfinished rfl
      rw [Reporter.reporter_settle_stop hnonfatal hstop]
      have hready : Ready { workspace with reporter := workspace.reporter.clear, output } :=
        ⟨⟨hresults, rfl, rfl⟩, hnonfatal, hplain⟩
      rcases Reporter.leaving_settle_stop hnonfatal hstop with
        ⟨hleaving, hdeep⟩ | ⟨cause, rfl, hdeep, hleaving⟩
      · rw [hleaving]
        refine ⟨hready, .inl ⟨none, rfl⟩, fun cause => ⟨nofun, ?_⟩⟩
        rintro ⟨hending, hnot⟩
        cases reason with
        | breakdown other =>
            obtain rfl := hdeep other rfl
            cases hending
            exact absurd rfl hnot
        | _ => cases hending
      · rw [hleaving]
        refine ⟨hready, .inr ⟨cause, (hcause cause rfl).resolve_left hdeep, rfl⟩, fun other => ?_⟩
        constructor
        · rintro ⟨rfl⟩
          exact ⟨rfl, hdeep⟩
        · rintro ⟨⟨rfl⟩, -⟩
          rfl

end Workspace

/-! ### The console -/

namespace Console

open Workspace

variable {limits : Limits} {console : Console} {line : String}

theorem submit_of_program {text : String} (h : isSilent text = false) (workspace : Workspace) :
    submit limits workspace text =
      ((guarded (evaluate limits workspace text)).1.map fun _ => (),
        (guarded (evaluate limits workspace text)).2) := by
  rw [submit, if_neg (by rw [h]; exact Bool.false_ne_true)]
  rcases guarded (evaluate limits workspace text) with ⟨_ | _, workspace⟩ <;> rfl

/-- Whether a line completes a program that breaks down, other than by nesting too deep. -/
structure BreaksDown (limits : Limits) (console : Console) (line : String) (cause : Breakdown) :
    Prop where
  program : console.pending = "" → Command.ofLine line = .program (console.entry line)
  closed : goesOn (console.entry line) = false
  some : isSilent (console.entry line) = false
  breaks : (evaluate limits console.workspace (console.entry line)).1 = .error (.breakdown cause)
  deep : cause ≠ .tooDeep

/-- How taking a line ends: the workspace is ready for the next program, and only a breakdown
    over the size of a number leaves the console. -/
structure Recovers (limits : Limits) (console : Console) (line : String)
    (result : Except Ending Bool × Console) : Prop where
  ready : result.2.workspace.Ready
  cases : result.1 = .ok false ∨
    ∃ cause : Breakdown, cause.Numeric ∧ result.1 = .error (.breakdown cause)
  breakdown_iff : ∀ cause, result.1 = .error (.breakdown cause) ↔
    console.BreaksDown limits line cause

theorem recovers_of_not_breaksDown {console' : Console} (h : console'.workspace.Ready)
    (hnot : ∀ cause, ¬console.BreaksDown limits line cause) :
    Recovers limits console line (.ok false, console') :=
  ⟨h, .inl rfl, fun cause => ⟨nofun, fun hbreaks => absurd hbreaks (hnot cause)⟩⟩

theorem recovers_feed (h : console.workspace.Ready)
    (hline : console.pending = "" → Command.ofLine line ∉ [.exit, .endOfInput])
    (hfinished : (console.feed limits line).1 ≠ .error .unfinished) :
    Recovers limits console line (console.feed limits line) := by
  have hfed := fed limits console line
  generalize console.feed limits line = result at hfed hfinished ⊢
  cases hfed with
  | blank hnew hblank =>
      refine recovers_of_not_breaksDown h fun cause hbreaks => ?_
      have hsome := hbreaks.some
      rw [entry, if_pos hnew, hblank, show isSilent "" = true by cbv] at hsome
      cases hsome
  | help hnew hcommand =>
      refine recovers_of_not_breaksDown (h.write helpText) fun cause hbreaks => ?_
      cases hcommand.symm.trans (hbreaks.program hnew)
  | exit hnew hcommand => exact absurd (by simp [hcommand]) (hline hnew)
  | endOfInput hnew hcommand => exact absurd (by simp [hcommand]) (hline hnew)
  | kept _ hopen =>
      refine recovers_of_not_breaksDown h fun cause hbreaks => ?_
      cases hopen.symm.trans hbreaks.closed
  | submitted hprogram _ hclosed =>
      cases hsilent : isSilent (console.entry line) with
      | true =>
          rw [submit, if_pos hsilent]
          refine recovers_of_not_breaksDown h fun cause hbreaks => ?_
          cases hsilent.symm.trans hbreaks.some
      | false =>
          rw [submit_of_program hsilent] at hfinished ⊢
          have hsettles := (outcome_evaluate limits h (console.entry line)).settles (by
            intro hunfinished
            exact hfinished (by rw [hunfinished]; rfl))
          refine ⟨hsettles.ready, ?_, fun cause => ?_⟩
          · rcases hsettles.cases with ⟨a, hresult⟩ | ⟨cause, hnumeric, hresult⟩
            · exact .inl (by rw [hresult]; rfl)
            · exact .inr ⟨cause, hnumeric, by rw [hresult]; rfl⟩
          · rw [((hsettles.map _).map _).breakdown_iff cause]
            constructor
            · rintro ⟨hbreaks, hdeep⟩
              exact ⟨hprogram, hclosed, hsilent, hbreaks, hdeep⟩
            · intro hbreaks
              exact ⟨hbreaks.breaks, hbreaks.deep⟩

/-- However many lines are taken, each of them is taken by a workspace that is ready. -/
theorem each_recovers {lines : List String} (h : console.workspace.Ready)
    (hlines : Avoids limits [.exit, .endOfInput] console lines)
    (hfinished : Each limits (fun _ _ result => result.1 ≠ .error .unfinished) console lines) :
    Each limits (Recovers limits) console lines := by
  induction lines generalizing console with
  | nil => trivial
  | cons line rest ih =>
      have hrecovers := recovers_feed h hlines.1 hfinished.1
      exact ⟨hrecovers, ih hrecovers.ready hlines.2 hfinished.2⟩

/-- No mistake and no too deep recursion ends a console whose lines are neither `exit` nor `EOF`,
    as long as all programs come to an end: taking a line tells that the console goes on,
    or passes on a breakdown over the size of a number, and that exactly if the line completes
    a program that breaks down so.  After every line no value and no source is left. -/
theorem console_recovers (earlier : Limits) (operations : List Operation) (limits : Limits)
    (fatal color : Bool) (workspace : Workspace) (lines : List String)
    (hworkspace :
      let process := Process.fresh.after earlier operations
      Workspace.create (.new fatal color) typedPath true process.store process.globals =
        .ok workspace)
    (hlines : Avoids limits [.exit, .endOfInput] (Console.new workspace) lines)
    (hfinished : Each limits (fun _ _ result => result.1 ≠ .error .unfinished)
      (Console.new workspace) lines) :
    Each limits (Recovers limits) (Console.new workspace) lines := by
  have hplain := Process.plain_after earlier operations
  have hready : workspace.Ready := by
    cases hworkspace
    exact ⟨⟨rfl, rfl, rfl⟩, rfl, hplain.create _ Bindings.plain_nil⟩
  exact each_recovers hready hlines hfinished

/-- A sum of a double and an integer beyond the range of doubles ends the console. -/
theorem console_recovers_overflow :
    let line := "do(define(s, fun(x, *(x, x))), +(/(1, 2), s(s(s(s(s(s(s(9999)))))))))"
    let console := Console.new
      (Process.opened (.new false false) typedPath Process.fresh.store Process.fresh.globals)
    Avoids ⟨20, 0⟩ [.exit, .endOfInput] console [line] ∧
      (console.feed ⟨20, 0⟩ line).1 = .error (.breakdown .beyondDoubles) ∧
      (console.feed ⟨20, 0⟩ line).2.workspace.Idle ∧
      console.BreaksDown ⟨20, 0⟩ line .beyondDoubles := by
  have hfails : ∀ line workspace, Workspace.create (.new false false) typedPath true
        Process.fresh.store Process.fresh.globals = .ok workspace →
      Command.ofLine line ∉ [.exit, .endOfInput] →
      ((Console.new workspace).feed ⟨20, 0⟩ line).1 = .error (.breakdown .beyondDoubles) →
      Avoids ⟨20, 0⟩ [.exit, .endOfInput] (Console.new workspace) [line] ∧
        ((Console.new workspace).feed ⟨20, 0⟩ line).1 = .error (.breakdown .beyondDoubles) ∧
        ((Console.new workspace).feed ⟨20, 0⟩ line).2.workspace.Idle ∧
        (Console.new workspace).BreaksDown ⟨20, 0⟩ line .beyondDoubles := by
    intro line workspace hworkspace hline hresult
    have hlines : Avoids ⟨20, 0⟩ [.exit, .endOfInput] (Console.new workspace) [line] :=
      ⟨fun _ => hline, trivial⟩
    have hfinished : ((Console.new workspace).feed ⟨20, 0⟩ line).1 ≠ .error .unfinished := by
      rw [hresult]
      exact nofun
    obtain ⟨hrecovers, -⟩ := console_recovers ⟨0, 0⟩ [] ⟨20, 0⟩ false false workspace [line]
      hworkspace hlines ⟨hfinished, trivial⟩
    exact ⟨hlines, hresult, hrecovers.ready.toIdle, (hrecovers.breakdown_iff _).1 hresult⟩
  exact hfails _ _ rfl (by decide) (by decide +kernel)

end Console

end CallLang
