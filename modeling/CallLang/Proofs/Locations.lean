/-
  CallLang/Proofs/Locations.lean
  ==============================
  **Where the complaints of a session are located.**

  In a session a closure may be called long after its text has been run.  The places
  in its body are offsets of that text, but whatever is reported is located in the
  text that is being run.  So a complaint is located where the expression at fault
  stands if it was read in the same run, and where nothing of the kind needs to
  stand if it was read in an earlier one.
-/
import CallLang.Proofs.Blame
import CallLang.Proofs.Recovery
import CallLang.Proofs.Reports

namespace CallLang

namespace Workspace

/-- The workspace after programs were run in it, one after another, whatever came of them under
    the care of the reporter. -/
def after (limits : Limits) (workspace : Workspace) (sources : List String) : Workspace :=
  sources.foldl (fun workspace source => (guarded (workspace.run limits source)).2) workspace

/-- The moment in which the evaluation of a program begins. -/
def start (workspace : Workspace) (program : Expr) : Moment :=
  { expr := program, scope := workspace.scope, store := workspace.store.quiet }

variable {limits : Limits} {workspace : Workspace} {source : String}

/-! ### What runs leave -/

/-- Under the care of the reporter, only reporter and output change. -/
theorem guarded_kept {α : Type} (out : Except Ending α × Workspace) :
    (guarded out).2.path = out.2.path ∧ (guarded out).2.scope = out.2.scope ∧
      (guarded out).2.store = out.2.store := by
  obtain ⟨ending | value, workspace⟩ := out
  · obtain ⟨output, hguarded⟩ := guarded_error (α := α) ending workspace
    rw [hguarded]
    exact ⟨rfl, rfl, rfl⟩
  · exact ⟨rfl, rfl, rfl⟩

/-- What belongs to an origin is not left by a run of a program that belongs to it. -/
theorem run_covered {origin : Origin} (hcovers : origin.Covers workspace.store)
    (hscope : origin.Home workspace.scope)
    (hread : ∀ program, Expr.parse limits.depth source = .ok program → origin.nodes program) :
    let after := (workspace.run limits source).2
    after.path = workspace.path ∧ after.scope = workspace.scope ∧ origin.Covers after.store := by
  cases hparse : Expr.parse limits.depth source with
  | error reason =>
      rw [run_of_error hparse]
      exact ⟨rfl, rfl, hcovers⟩
  | ok program =>
      have hquiet : origin.Covers workspace.store.quiet := hcovers
      have hmeets := Evaluator.meets_eval origin.kept_invariant limits.rounds limits.depth
        workspace.store.quiet program workspace.scope (hread program hparse) hscope
        workspace.store.quiet (.refl _) hquiet
      have hafter : origin.Covers (limits.eval program workspace.scope workspace.store.quiet).2 :=
        hmeets.1
      rw [run_of_ok hparse]
      generalize limits.eval program workspace.scope workspace.store.quiet = out at hafter ⊢
      obtain ⟨reason | value, store⟩ := out
      · exact ⟨rfl, rfl, hafter⟩
      · exact ⟨rfl, rfl, hafter⟩

theorem after_covered {origin : Origin} (hcovers : origin.Covers workspace.store)
    (hscope : origin.Home workspace.scope) {sources : List String}
    (hread : ∀ source ∈ sources, ∀ program, Expr.parse limits.depth source = .ok program →
      origin.nodes program) :
    let last := workspace.after limits sources
    last.path = workspace.path ∧ last.scope = workspace.scope ∧ origin.Covers last.store := by
  induction sources generalizing workspace with
  | nil => exact ⟨rfl, rfl, hcovers⟩
  | cons source rest ih =>
      obtain ⟨hpath, hsame, hstore⟩ :=
        run_covered hcovers hscope (hread source List.mem_cons_self)
      obtain ⟨hpath', hsame', hstore'⟩ := guarded_kept (workspace.run limits source)
      rw [hpath] at hpath'
      rw [hsame] at hsame'
      rw [← hstore'] at hstore
      have hrest := ih hstore (hsame' ▸ hscope)
        fun other hmem => hread other (List.mem_cons_of_mem source hmem)
      rw [hpath', hsame'] at hrest
      exact hrest

/-! ### Faults -/

/-- What a complaint of a run is about, given the texts that have been run so far and this one:
    either this text is no program, or the evaluation comes to a moment that fails by itself, and
    a node of a program that was read from one of the texts is to blame. -/
inductive Fault (limits : Limits) (workspace : Workspace) (texts : List String) (source : String)
    (cause : Mistake) (span : Span) : Prop where
  | text (h : Expr.parse limits.depth source = .error (.mistake cause (some span)))
      (hstart : span.start ≤ span.stop) (hstop : span.stop ≤ source.length) :
      Fault limits workspace texts source cause span
  | node {text : String} {program other culprit : Expr} {last : Moment}
      (hprogram : Expr.parse limits.depth source = .ok program)
      (hreaches : (workspace.start program).Reaches last)
      (hfails : last.Fails (.mistake cause (some span))) (htext : text ∈ texts)
      (hread : Expr.parse limits.depth text = .ok other) (hnode : other.HasNode last.expr)
      (hculprit : other.HasNode culprit) (hspan : culprit.span = span)
      (hblames : Blames text.toList last.expr cause culprit) (hstart : span.start ≤ span.stop)
      (hstop : span.stop ≤ text.length) :
      Fault limits workspace texts source cause span

/-- A run that ends with a complaint has a fault. -/
theorem exists_fault {texts : List String} {complaint : Complaint} {origin : Origin}
    (hcovers : origin.Covers workspace.store) (hscope : origin.Home workspace.scope)
    (hnodes : ∀ node, origin.nodes node ↔ ∃ program, (∃ text ∈ texts,
      Expr.parse limits.depth text = .ok program) ∧ program.HasNode node)
    (hsource : source ∈ texts)
    (h : (workspace.run limits source).1 = .error (.complaint complaint)) :
    ∃ cause span, complaint = cause.at (some span) ∧
      Fault limits workspace texts source cause span ∧
      (workspace.run limits source).2.reporter = workspace.reporter.register workspace.path source := by
  -- an ending that is a complaint comes from a mistake
  have hmistake : ∀ reason : Stop, reason.ending = .complaint complaint →
      ∃ cause place, reason = .mistake cause place ∧ complaint = cause.at place := by
    intro reason hreason
    cases reason with
    | mistake cause place =>
        cases hreason
        exact ⟨cause, place, rfl, rfl⟩
    | breakdown cause => cases hreason
    | unfinished => cases hreason
  cases hparse : Expr.parse limits.depth source with
  | error reason =>
      rw [run_of_error hparse] at h ⊢
      obtain ⟨cause, place, rfl, rfl⟩ := hmistake reason (Except.error.inj h)
      obtain ⟨before, rest, s, span, htokens, hpasses, hobstacle, rfl⟩ :=
        Reader.exists_obstacle hparse
      obtain ⟨hstart, hstop⟩ := hobstacle.span_le htokens hpasses.closed
      exact ⟨cause, span, rfl, .text hparse hstart hstop, rfl⟩
  | ok program =>
      have hrun : (workspace.start program).run limits =
          limits.eval program workspace.scope workspace.store.quiet := rfl
      rw [run_of_ok hparse, ← hrun] at h ⊢
      generalize hout : (workspace.start program).run limits = out at h ⊢
      obtain ⟨reason | value, store⟩ := out
      · obtain ⟨cause, place, rfl, rfl⟩ := hmistake reason (Except.error.inj h)
        obtain ⟨last, hreaches, hfails⟩ :=
          Moment.exists_of_error id (congrArg Prod.fst hout)
        have hprogram : origin.nodes program :=
          (hnodes program).2 ⟨program, ⟨source, hsource, hparse⟩, Expr.hasNode_refl program⟩
        obtain ⟨other, ⟨text, htext, hread⟩, hnode⟩ :=
          (hnodes _).1 (origin.nodes_of_reaches hreaches hprogram hscope hcovers)
        obtain ⟨culprit, hblames, hculprit, rfl⟩ := hfails.blames
          ((Expr.plain_of_parse hread).node hnode) (Expr.standsIn_of_parse hread hnode)
        have hbelow : other.HasNode culprit := Relation.ReflTransGen.trans hnode hculprit
        have hstands := Expr.standsIn_of_parse hread hbelow
        exact ⟨cause, culprit.span, rfl, .node hparse hreaches hfails htext hread hnode hbelow rfl
          hblames (Nat.le_of_lt hstands.start_lt) hstands.stop_le, rfl⟩
      · cases h

end Workspace

/-! ### Sessions -/

namespace Process

/-- In a session, whichever programs were run before, a run that ends with a complaint has a fault
    in a text that was run then or is run now.  Meanwhile the text that is run now is the current
    source, and the report gives the line and the column that the offset of the fault has there. -/
theorem complaint_located (earlier : Limits) (operations : List Operation) (limits : Limits)
    (reporter : Reporter) (path : String) (console : Bool) {workspace : Workspace}
    (before : List String) (source : String) {complaint : Complaint} :
    let process := fresh.after earlier operations
    let current := workspace.after limits before
    let out := current.run limits source
    Workspace.create reporter path console process.store process.globals = .ok workspace →
    out.1 = .error (.complaint complaint) →
    ∃ cause span, complaint = cause.at (some span) ∧
      Workspace.Fault limits current (before ++ [source]) source cause span ∧
      out.2.reporter.current = some path ∧ out.2.reporter.source = source ∧
      (Workspace.guarded out).2.output =
        let address := Text.Address.of source.toList span.start
        out.2.output.push (.written
          (Text.Style.bold.paint out.2.reporter.color
            (path ++ (":" ++ Nat.repr address.number ++ ":" ++ Nat.repr address.column ++ ": ")) ++
            out.2.reporter.body .error complaint.category.label complaint)) := by
  intro process current out hcreate hout
  let texts := before ++ [source]
  let origin := Origin.ofPrograms
    (fun program => ∃ text ∈ texts, Expr.parse limits.depth text = .ok program)
    (fun program ⟨_, _, hread⟩ => Expr.plain_of_parse hread) process.globals
    process.store.scopes.size
  have hprogram : ∀ text ∈ texts, ∀ program, Expr.parse limits.depth text = .ok program →
      origin.nodes program := by
    intro text htext program hread
    exact ⟨program, ⟨text, htext, hread⟩, Expr.hasNode_refl program⟩
  have hglobals : origin.Covers process.store :=
    Origin.covers_of_globals (globals_after earlier operations) rfl
  obtain ⟨hcovers, hhome⟩ := hglobals.create (.inl rfl) Bindings.all_nil
  obtain ⟨reporter', rfl⟩ := opened_of_create hcreate
  have hopened : origin.Covers (opened reporter' path process.store process.globals).store := hcovers
  obtain ⟨hpath, hscope, hstore⟩ := Workspace.after_covered hopened hhome
    fun text hmem => hprogram text (List.mem_append_left _ hmem)
  obtain ⟨cause, span, rfl, hfault, hreporter⟩ := Workspace.exists_fault hstore
    (hscope ▸ hhome) (fun _ => Iff.rfl) (by simp [texts] : source ∈ texts) hout
  rw [hpath] at hreporter
  have hcurrent : out.2.reporter.current = some path := by
    rw [hreporter]
    rfl
  have hsource : out.2.reporter.source = source := by
    rw [hreporter, Reporter.source_register]
  refine ⟨cause, span, rfl, hfault, hcurrent, hsource, ?_⟩
  have hpair : out = (.error (Stop.ending (.mistake cause (some span))), out.2) :=
    Prod.ext hout rfl
  rw [hpair, Workspace.guarded_stop rfl, Reporter.present_eq hcurrent, hsource]
  rfl

/-- A closure of an earlier run fails behind the end of the text that is run now, and its failure
    is reported at that end. -/
theorem complaint_located_behind :
    let workspace := opened (Reporter.new false false) typedPath fresh.store fresh.globals
    let current := workspace.after ⟨20, 0⟩ ["define(f, fun(x, y))"]
    let out := current.run ⟨20, 0⟩ "f(1)"
    let complaint := (Mistake.unbound "y").at (some ⟨17, 18⟩)
    out.1 = .error (.complaint complaint) ∧ "f(1)".length < 17 ∧
      (∃ cause, Workspace.Fault ⟨20, 0⟩ current ["define(f, fun(x, y))", "f(1)"] "f(1)" cause
        ⟨17, 18⟩) ∧
      (Workspace.guarded out).2.output = out.2.output.push (.written
        (Text.Style.bold.paint out.2.reporter.color "<in>:1:4: " ++
          out.2.reporter.body .error "reference error" complaint)) := by
  intro workspace current out complaint
  have hout : out.1 = .error (.complaint complaint) := by
    simp only [out, current, workspace, complaint]
    cbv
  have hcreate : Workspace.create (Reporter.new true false) typedPath true fresh.store fresh.globals =
      .ok workspace := rfl
  obtain ⟨cause, span, hcause, hfault, -, -, houtput⟩ := complaint_located ⟨0, 0⟩ [] ⟨20, 0⟩
    (Reporter.new true false) typedPath true ["define(f, fun(x, y))"] "f(1)" hcreate hout
  obtain ⟨start, stop⟩ := span
  have hstart : (17 : Int) = start := Option.some.inj (congrArg Complaint.start hcause)
  have hstop : (18 : Int) = stop := Option.some.inj (congrArg Complaint.stop hcause)
  obtain rfl : 17 = start := Int.ofNat.inj hstart
  obtain rfl : 18 = stop := Int.ofNat.inj hstop
  refine ⟨hout, by decide, ⟨cause, hfault⟩, ?_⟩
  exact houtput

end Process

end CallLang
