/-
  CallLang/Proofs/Sequences.lean
  ==============================
  **A session is the same as one program.**

  Running programs one after another in a session comes to the same as running the
  one program that does them in sequence.  Neither a sequence nor a session opens a
  scope for a single program, so both bind the same names in one scope, and both
  stop at the first program that fails, with all that was bound until then.

  The session prints run by run and the sequence all at once.  So the two stores are
  compared from one program to the next, whatever was printed before.
-/
import CallLang.Proofs.Executions
import CallLang.Proofs.Isolation
import CallLang.Proofs.Joining
import CallLang.Proofs.Limits

namespace CallLang

/-! ### Ends of work -/

/-- Whether work has ended by itself and was not cut off. -/
def Finished {α : Type} (result : Except Ending α) : Prop :=
  result ≠ .error .unfinished ∧ result ≠ .error (.breakdown .tooDeep)

theorem finished_ok {α : Type} (a : α) : Finished (.ok a) := by
  constructor <;> simp

theorem finished_complaint {α : Type} (complaint : Complaint) :
    Finished (.error (.complaint complaint) : Except Ending α) := by
  constructor <;> simp

theorem ended_of_finished {α : Type} {result : Except Stop α}
    (h : Finished (result.mapError Stop.ending)) : Ended result := by
  rintro reason rfl hcut
  cases reason with
  | mistake cause place => exact hcut
  | breakdown cause =>
      cases cause with
      | tooDeep => exact h.2 rfl
      | _ => exact hcut
  | unfinished => exact h.1 rfl

/-! ### Programs in a row -/

/-- The line that a piece of output is, if a program has printed it. -/
def Output.line? : Output → Option String
  | .printed line => some line
  | .written _ => none

/-- What programs have printed in a workspace. -/
def Workspace.printed (workspace : Workspace) : List String :=
  workspace.output.toList.filterMap Output.line?

namespace Workspace

/-- Runs programs one after another, up to the first that stops early. -/
def runAll (limits : Limits) : Workspace → String → List String → Except Ending Value × Workspace
  | workspace, source, [] => workspace.run limits source
  | workspace, source, next :: rest =>
    match workspace.run limits source with
    | (.ok _, workspace) => runAll limits workspace next rest
    | (.error ending, workspace) => (.error ending, workspace)

variable {limits limits' : Limits} {workspace : Workspace} {source : String} {rest : List String}

/-- A run that is not cut off comes to the same within larger limits. -/
theorem run_of_le (hdepth : limits.depth ≤ limits'.depth) (hrounds : limits.rounds ≤ limits'.rounds)
    (h : Finished (workspace.run limits source).1) :
    workspace.run limits' source = workspace.run limits source := by
  apply (cutOf_run limits limits' cutOff_tooDeep hrounds (fun _ => cutOff_unfinished) hdepth
    workspace source).1
  intro reason hreason hresult
  rw [hresult] at h
  have hended : Ended (.error reason : Except Stop Value) := ended_of_finished h
  exact hended reason rfl hreason

theorem runAll_of_le (hdepth : limits.depth ≤ limits'.depth)
    (hrounds : limits.rounds ≤ limits'.rounds)
    (h : Finished (workspace.runAll limits source rest).1) :
    workspace.runAll limits' source rest = workspace.runAll limits source rest := by
  induction rest generalizing workspace source with
  | nil => exact run_of_le hdepth hrounds h
  | cons next rest ih =>
      unfold runAll at h ⊢
      have hfirst : Finished (workspace.run limits source).1 := by
        generalize workspace.run limits source = out at h ⊢
        obtain ⟨ending | value, after⟩ := out
        · exact h
        · exact finished_ok value
      rw [run_of_le hdepth hrounds hfirst]
      generalize workspace.run limits source = out at h ⊢
      obtain ⟨ending | value, after⟩ := out
      · rfl
      · exact ih h

/-- Of the output of a run only what its program prints is printed. -/
theorem printed_evaluated (workspace : Workspace) (program : Expr) (store : Store) :
    (workspace.evaluated program store).printed = workspace.printed ++ store.printed.toList := by
  have hwarnings : ∀ complaints : List Complaint, (complaints.map fun complaint =>
      Output.written (workspace.reporter.warn complaint)).filterMap Output.line? = [] := by
    intro complaints
    induction complaints with
    | nil => rfl
    | cons complaint rest ih => exact ih
  have hlines : ∀ lines : List String, (lines.map Output.printed).filterMap Output.line? = lines := by
    intro lines
    induction lines with
    | nil => rfl
    | cons line rest ih => exact congrArg (line :: ·) ih
  simp only [printed, evaluated, warnings_eq, Array.toList_append, List.filterMap_append,
    Array.toList_map, hlines]
  rw [hwarnings, List.append_nil]

end Workspace

/-! ### Comparisons -/

/-- The comparison of a run in a session, with nothing printed before, with a part of a program
    that has printed something before.  Places in their texts are of no account. -/
def Comparison.loose (told' : Array String) : Comparison :=
  { spans := fun _ _ => True, told := #[], told' }

theorem Comparison.spans_le_loose (c : Comparison) (told' : Array String) :
    c.spans ≤ (loose told').spans :=
  fun _ _ _ => trivial

/-- What programs come to that are the same but for places. -/
abbrev Result.Alike (w : Correspondence) : Except Stop Value → Except Stop Value → Prop :=
  Result.Same (.loose #[]) (Value.Same (.loose #[]) w)

theorem Result.Same.alike {c : Comparison} {w : Correspondence} {result result' : Except Stop Value}
    (h : Result.Same c (Value.Same c w) result result') : Result.Alike w result result' :=
  h.map (c.spans_le_loose _)

/-- Whether a session agrees with the evaluation of a sequence, both having gone on: the session
    from a workspace, and the evaluation from a store. -/
structure Agrees (w : Correspondence) (workspace : Workspace) (store' : Store)
    (out : Except Ending Value × Workspace) (out' : Except Stop Value × Store) : Prop where
  scope : out.2.scope = workspace.scope
  store : Store.Same (.loose #[]) w out.2.store out'.2.quiet
  printed : ∃ since, out.2.printed = workspace.printed ++ since ∧
    out'.2.printed.toList = store'.printed.toList ++ since
  result : ∃ result, out.1 = result.mapError Stop.ending ∧ Result.Alike w result out'.1

section

variable {w : Correspondence} {workspace : Workspace} {scope' : ScopeId}

/-- A run of a program agrees with the evaluation of the operand that it has become. -/
theorem agrees_run (limits : Limits) (store' : Store) {source : String} {expr expr' : Expr}
    (hparse : Expr.parse limits.depth source = .ok expr)
    (hexpr : Expr.Same (.loose #[]) w expr expr') (hscope : w.scopes workspace.scope scope')
    (hstore : Store.Same (.loose #[]) w workspace.store.quiet store'.quiet) :
    ∃ w', w.Le w' ∧
      Agrees w' workspace store' (workspace.run limits source) (limits.eval expr' scope' store') := by
  have htold : Store.Same (.loose store'.printed) w workspace.store.quiet store' :=
    hstore.map (Comparison.spans_le_loose _ _) ⟨#[], rfl, by simp [Comparison.loose]⟩
  obtain ⟨w', hgrows, hsame, hresult⟩ := Evaluator.same_eval
    (Store.likeness (.loose store'.printed)) limits.rounds limits.depth w expr expr' workspace.scope scope'
    (hexpr.map (Comparison.spans_le_loose _ _) (.refl w)) hscope w workspace.store.quiet store'
    (.refl w) htold
  refine ⟨w', hgrows.le, ?_⟩
  obtain ⟨since, hprinted, hprinted'⟩ := hsame.printed
  have hquiet : Store.Same (.loose #[]) w'
      (eval limits.rounds limits.depth expr workspace.scope workspace.store.quiet).2.quiet
      (eval limits.rounds limits.depth expr' scope' store').2.quiet :=
    hsame.map (Comparison.spans_le_loose _ _) ⟨#[], rfl, rfl⟩
  rw [Workspace.run_of_ok hparse]
  unfold Limits.eval
  generalize eval limits.rounds limits.depth expr workspace.scope workspace.store.quiet = out,
    eval limits.rounds limits.depth expr' scope' store' = out' at hquiet hresult hprinted hprinted' ⊢
  obtain ⟨result, after⟩ := out
  have hlines : ((workspace.running source).evaluated expr after).printed =
      workspace.printed ++ since.toList := by
    rw [Workspace.printed_evaluated, hprinted, Array.toList_append]
    rfl
  have hlines' : out'.2.printed.toList = store'.printed.toList ++ since.toList := by
    rw [hprinted', Array.toList_append]
    rfl
  cases result with
  | ok value => exact ⟨rfl, hquiet, ⟨since.toList, hlines, hlines'⟩, .ok value, rfl, hresult.alike⟩
  | error reason =>
      exact ⟨rfl, hquiet, ⟨since.toList, hlines, hlines'⟩, .error reason, rfl, hresult.alike⟩

/-- Runs of programs agree with the evaluation of the operands that they have become, one after
    another. -/
theorem agrees_runAll (limits : Limits) (store' : Store) {source : String} {rest : List String}
    {exprs operands : List Expr}
    (hparse : List.Forall₂ (fun text expr => Expr.parse limits.depth text = .ok expr)
      (source :: rest) exprs)
    (hsame : Expr.AllSame (.loose #[]) w exprs operands) (hscope : w.scopes workspace.scope scope')
    (hstore : Store.Same (.loose #[]) w workspace.store.quiet store'.quiet) (value' : Value) :
    ∃ w', w.Le w' ∧ Agrees w' workspace store' (workspace.runAll limits source rest)
      (Evaluator.last limits.eval scope' value' operands store') := by
  induction rest generalizing w workspace store' source exprs operands value' with
  | nil =>
      obtain _ | ⟨hfirst, _ | _⟩ := hparse
      obtain _ | ⟨hexpr, _ | _⟩ := hsame
      obtain ⟨w', hle, hagrees⟩ := agrees_run limits store' hfirst hexpr hscope hstore
      refine ⟨w', hle, ?_⟩
      unfold Workspace.runAll Evaluator.last Action.bind
      generalize limits.eval _ scope' store' = out' at hagrees ⊢
      obtain ⟨reason | value, after'⟩ := out'
      · exact hagrees
      · exact hagrees
  | cons next rest ih =>
      obtain _ | ⟨hfirst, hrest⟩ := hparse
      obtain _ | ⟨hexpr, hexprs⟩ := hsame
      obtain ⟨w₁, hle₁, hagrees⟩ := agrees_run limits store' hfirst hexpr hscope hstore
      unfold Workspace.runAll Evaluator.last Action.bind
      generalize workspace.run limits source = out, limits.eval _ scope' store' = out'
        at hagrees ⊢
      obtain ⟨ended, workspace₁⟩ := out
      obtain ⟨result', store₁⟩ := out'
      obtain ⟨hsame₁, hstore₁, ⟨since, hprinted, hprinted'⟩, result, rfl, hresult⟩ := hagrees
      cases hresult with
      | error hreason =>
          exact ⟨w₁, hle₁, hsame₁, hstore₁, ⟨since, hprinted, hprinted'⟩, _, rfl, .error hreason⟩
      | ok hvalue =>
          have hscope₁ : w₁.scopes workspace₁.scope scope' :=
            hsame₁ ▸ hle₁.scopes _ _ hscope
          have hquiet₁ : Store.Same (.loose #[]) w₁ workspace₁.store.quiet store₁.quiet :=
            hstore₁.map le_rfl ⟨#[], rfl, rfl⟩
          obtain ⟨w₂, hle₂, hscope₂, hstore₂, ⟨later, hlines, hlines'⟩, hresult₂⟩ :=
            ih store₁ hrest (hexprs.mono hle₁) hscope₁ hquiet₁ _
          refine ⟨w₂, hle₁.trans hle₂, hscope₂.trans hsame₁, hstore₂, ⟨since ++ later, ?_, ?_⟩,
            hresult₂⟩
          · rw [← List.append_assoc, ← hprinted]
            exact hlines
          · rw [← List.append_assoc, ← hprinted']
            exact hlines'

end

/-! ### Sessions -/

/-- Programs have derivations, and their trees are read within all limits beyond a bound. -/
theorem Grammar.exists_derivations {sources : List String}
    (h : ∀ text ∈ sources, ∃ limit program, Expr.parse limit text = .ok program) :
    ∃ ds : List Derivation, List.Forall₂ Derivation.Derives ds sources ∧
      ∃ bound, ∀ limit, bound ≤ limit →
        List.Forall₂ (fun text expr => Expr.parse limit text = .ok expr) sources
          (ds.map Derivation.expr) := by
  induction sources with
  | nil => exact ⟨[], .nil, 0, fun _ _ => .nil⟩
  | cons text rest ih =>
      obtain ⟨limit, program, hprogram⟩ := h text List.mem_cons_self
      obtain ⟨d, hd, -⟩ := Reader.derives_of_parse hprogram
      obtain ⟨ds, hds, bound, hbound⟩ := ih fun other hmem => h other (List.mem_cons_of_mem _ hmem)
      refine ⟨d :: ds, .cons hd hds, max text.length bound, fun limit hlimit => ?_⟩
      obtain ⟨hlength, hrest⟩ := Nat.max_le.1 hlimit
      exact .cons (Reader.parse_of_derives hd hlength) (hbound limit hrest)

/-- A run of a sequence comes to what the operands come to, one after another. -/
theorem Workspace.run_sequence {depth : Nat} (rounds : Nat) (workspace : Workspace)
    {source : String} {operator : Expr} {operands : List Expr} {span : Span}
    (hparse : Expr.parse (depth + 1) source = .ok (.call operator operands span))
    (hform : operator.form? = some .sequence) :
    let out := Evaluator.last (Limits.eval ⟨depth, rounds⟩) workspace.scope (.boolean false)
      operands workspace.store.quiet
    let after := workspace.run ⟨depth + 1, rounds⟩ source
    after.1 = out.1.mapError Stop.ending ∧ after.2.scope = workspace.scope ∧
      after.2.store = out.2.quiet ∧ after.2.printed = workspace.printed ++ out.2.printed.toList := by
  intro out after
  have heval : Limits.eval ⟨depth + 1, rounds⟩ (.call operator operands span) workspace.scope
      workspace.store.quiet = out :=
    Moment.run_form hform
  have hlimits : Expr.parse (Limits.mk (depth + 1) rounds).depth source =
      .ok (.call operator operands span) := hparse
  have hafter : after = workspace.run ⟨depth + 1, rounds⟩ source := rfl
  rw [run_of_ok hlimits, heval] at hafter
  rw [hafter]
  generalize out = out
  obtain ⟨reason | value, store⟩ := out
  · exact ⟨rfl, rfl, rfl, printed_evaluated _ _ _⟩
  · exact ⟨rfl, rfl, rfl, printed_evaluated _ _ _⟩

namespace Process

/-- Sessions that have just been opened are the same, in whichever processes. -/
theorem same_opened (earlier earlier' : Limits) (operations operations' : List Operation)
    (reporter reporter' : Reporter) (path path' : String) :
    let process := fresh.after earlier operations
    let process' := fresh.after earlier' operations'
    let workspace := opened reporter path process.store process.globals
    let workspace' := opened reporter' path' process'.store process'.globals
    ∃ w : Correspondence, w.scopes workspace.scope workspace'.scope ∧
      Store.Same (.loose #[]) w workspace.store.quiet workspace'.store.quiet := by
  intro process process' workspace workspace'
  obtain ⟨hproper, hglobals, hscope⟩ := proper_after earlier operations
  obtain ⟨hproper', hglobals', hscope'⟩ := proper_after earlier' operations'
  have hfresh := (apart_fresh none).stores
  have hsame : Store.Same .strict globalsOnly process.store process'.store :=
    { hfresh with
      scopes := by
        rintro _ _ ⟨rfl, rfl⟩
        rw [hscope, hscope']
        exact hfresh.scopes _ _ ⟨rfl, rfl⟩
      closures := fun _ _ hid => hid.elim
      printed := ⟨#[], hproper.printed, hproper'.printed⟩ }
  refine ⟨globalsOnly.addScope process.store.scopes.size process'.store.scopes.size,
    .inr ⟨rfl, rfl⟩, ?_⟩
  have hcreated := hsame.create (.some ⟨hglobals, hglobals'⟩) .nil
  exact hcreated.map (Comparison.spans_le_loose _ _) ⟨#[], rfl, rfl⟩

/-- A session is the same as one program: programs that are run one after another in a session,
    up to the first that fails, print what the sequence of them prints in another, come to the
    same last value or fail for the same reason, and leave the same bindings. -/
theorem session_as_sequence (earlier earlier' limits limits' : Limits)
    (operations operations' : List Operation) (reporter reporter' : Reporter)
    (path path' : String) (console console' : Bool) (source : String) (rest : List String)
    {workspace workspace' : Workspace} :
    let process := fresh.after earlier operations
    let process' := fresh.after earlier' operations'
    let out := workspace.runAll limits source rest
    let out' := workspace'.run limits' (sequenceText (source :: rest))
    Workspace.create reporter path console process.store process.globals = .ok workspace →
    Workspace.create reporter' path' console' process'.store process'.globals = .ok workspace' →
    (∀ text ∈ source :: rest, ∃ limit program, Expr.parse limit text = .ok program) →
    Finished out.1 → Finished out'.1 →
    out.2.printed = out'.2.printed ∧
      ∃ w : Correspondence, w.scopes out.2.scope out'.2.scope ∧
        Store.Same (.loose #[]) w out.2.store out'.2.store ∧
        ∃ result result', out.1 = result.mapError Stop.ending ∧
          out'.1 = result'.mapError Stop.ending ∧ Result.Alike w result result' := by
  intro process process' out out' hcreate hcreate' hparse hout hout'
  obtain ⟨first, rfl⟩ := opened_of_create hcreate
  obtain ⟨second, rfl⟩ := opened_of_create hcreate'
  obtain ⟨_ | ⟨d, ds⟩, hderives, bound, hread⟩ := Grammar.exists_derivations hparse
  · cases hderives
  obtain ⟨hd, hds⟩ := List.forall₂_cons.1 hderives
  obtain ⟨operator, operands, span, hexpr, hform, hoperands⟩ := d.expr_sequence ds
  -- limits within which both runs come to the same, and all texts are read
  let depth := max (max limits.depth limits'.depth)
    (max bound (sequenceText (source :: rest)).length)
  let rounds := max limits.rounds limits'.rounds
  have hsession : out = Workspace.runAll ⟨depth, rounds⟩
      (opened first path process.store process.globals) source rest :=
    (Workspace.runAll_of_le (by simp [depth]) (by simp [rounds])
      hout).symm
  have hsequence : out' = (opened second path' process'.store process'.globals).run
      ⟨depth + 1, rounds⟩ (sequenceText (source :: rest)) :=
    (Workspace.run_of_le (by simp [depth]; omega)
      (by simp [rounds]) hout').symm
  have hjoined : Expr.parse (depth + 1) (sequenceText (source :: rest)) =
      .ok (.call operator operands span) := by
    rw [← hexpr]
    exact Reader.parse_of_derives (Grammar.Derivation.derives_sequence hd hds)
      (by simp [depth]; omega)
  obtain ⟨w, hscope, hstore⟩ := same_opened earlier earlier' operations operations' first second
    path path'
  obtain ⟨w', hle, hscope', hsame, ⟨since, hprinted, hprinted'⟩, result, hresult, halike⟩ :=
    agrees_runAll ⟨depth, rounds⟩
      (opened second path' process'.store process'.globals).store.quiet
      (hread depth (by simp [depth])) (hoperands _ w fun _ _ => trivial) hscope hstore
      (.boolean false)
  obtain ⟨hresult', hscope₂, hstore₂, hprinted₂⟩ := Workspace.run_sequence rounds
    (opened second path' process'.store process'.globals) hjoined hform
  rw [hsession, hsequence]
  refine ⟨?_, w', ?_, ?_, result, _, hresult, hresult', halike⟩
  · rw [hprinted, hprinted₂, hprinted']
    rfl
  · rw [hscope', hscope₂]
    exact hle.scopes _ _ hscope
  · rw [hstore₂]
    exact hsame

/-- A comment at the end of a program hides nothing of the sequence, and the program that fails
    fails in the sequence too, after what was printed until then. -/
theorem session_as_sequence_comment :
    let workspace := opened (Reporter.new false false) typedPath fresh.store fresh.globals
    let out := workspace.runAll ⟨20, 0⟩ "define(x, true) # one" ["print(x)", "y"]
    let out' := workspace.run ⟨20, 0⟩ (sequenceText ["define(x, true) # one", "print(x)", "y"])
    out.1 = .error (.complaint ((Mistake.unbound "y").at (some ⟨0, 1⟩))) ∧
      out'.1 = .error (.complaint ((Mistake.unbound "y").at (some ⟨36, 37⟩))) ∧
      out.2.printed = ["true"] ∧ out'.2.printed = ["true"] ∧
      ∃ w : Correspondence, w.scopes out.2.scope out'.2.scope ∧
        Store.Same (.loose #[]) w out.2.store out'.2.store := by
  intro workspace out out'
  have hout : out.1 = .error (.complaint ((Mistake.unbound "y").at (some ⟨0, 1⟩))) := by
    simp only [out, workspace]
    cbv
  have hout' : out'.1 = .error (.complaint ((Mistake.unbound "y").at (some ⟨36, 37⟩))) := by
    simp only [out', workspace]
    cbv
  have hprinted : out.2.printed = ["true"] := by
    simp only [out, workspace]
    cbv
  have hcreate : Workspace.create (Reporter.new true false) typedPath true fresh.store fresh.globals =
      .ok workspace := rfl
  have hread : ∀ text ∈ ["define(x, true) # one", "print(x)", "y"],
      ∃ limit program, Expr.parse limit text = .ok program := by
    simp only [List.forall_mem_cons]
    exact ⟨⟨20, _, by cbv⟩, ⟨20, _, by cbv⟩, ⟨20, _, by cbv⟩, List.forall_mem_nil _⟩
  obtain ⟨hsame, w, hscope, hstore, -⟩ := session_as_sequence ⟨0, 0⟩ ⟨0, 0⟩ ⟨20, 0⟩ ⟨20, 0⟩ [] []
    (Reporter.new true false) (Reporter.new true false) typedPath typedPath true true
    "define(x, true) # one" ["print(x)", "y"] hcreate hcreate hread
    (hout ▸ finished_complaint _) (hout' ▸ finished_complaint _)
  exact ⟨hout, hout', hprinted, hsame ▸ hprinted, w, hscope, hstore⟩

end Process

end CallLang
