/-
  CallLang/Proofs/Workspaces.lean
  ===============================
  **Runs in workspaces.**

  A run in a workspace reads its text, warns, evaluates in the scope of the
  workspace, and notes the value.  It changes no scope but that of the workspace,
  and in workspaces that are the same up to a correspondence it does the same.
-/
import CallLang.Proofs.Locality
import CallLang.Proofs.Plain
import CallLang.Proofs.Simulation
import CallLang.Workspace

namespace CallLang

/-- Whether two workspaces are the same up to a correspondence of their stores. -/
structure Workspace.Same (c : Comparison) (w : Correspondence) (workspace workspace' : Workspace) :
    Prop where
  path : workspace.path = workspace'.path
  scope : w.scopes workspace.scope workspace'.scope
  reporter : workspace.reporter = workspace'.reporter
  results : Value.AllSame c w workspace.results workspace'.results
  output : workspace.output = workspace'.output

/-- Whether two results of work in workspaces are the same, given when values are. -/
inductive Ending.SameResult {α β : Type} (values : α → β → Prop) :
    Except Ending α → Except Ending β → Prop where
  | ok {a : α} {b : β} (h : values a b) : Ending.SameResult values (.ok a) (.ok b)
  | error (ending : Ending) : Ending.SameResult values (.error ending) (.error ending)

theorem Ending.SameResult.map_some {α β : Type} {values : α → β → Prop} {result : Except Ending α}
    {result' : Except Ending β} (h : SameResult values result result') :
    SameResult (Option.Rel values) (result.map some) (result'.map some) := by
  cases h with
  | ok hvalue => exact .ok (.some hvalue)
  | error ending => exact .error ending

/-- A store with nothing printed. -/
def Store.quiet (store : Store) : Store :=
  { store with printed := #[] }

theorem Store.Same.quiet {w : Correspondence} {store store' : Store}
    (h : Store.Same .strict w store store') : Store.Same .strict w store.quiet store'.quiet :=
  { h with printed := ⟨#[], rfl, rfl⟩ }

/-- What is printed is no matter of correspondence. -/
theorem Correspondence.Grows.quiet {w w' : Correspondence} {before before' after after' : Store}
    (h : w.Grows w' before.quiet before'.quiet after after') :
    w.Grows w' before before' after.quiet after'.quiet :=
  ⟨h.scopes, h.closures⟩

theorem Store.Same.printed_eq {w : Correspondence} {store store' : Store}
    (h : Store.Same .strict w store store') : store.printed = store'.printed := by
  obtain ⟨since, hprinted, hprinted'⟩ := h.printed
  rw [hprinted, hprinted']
  rfl

/-- What is warned about in a program: definitions of the words of forms. -/
def Expr.warned (program : Expr) : List Complaint :=
  program.redefinitions.map fun (word, span) => .located .general
    (Mistake.about "'" word "' is a special form, calls to it will not use this definition")
    (some span.start) (some span.stop)

namespace Workspace

/-- What is written about the definitions of forms' words in a program. -/
def warnings (reporter : Reporter) (program : Expr) : Array Output :=
  (program.redefinitions.map fun (word, span) => Output.written <| reporter.warn <|
    .located .general
      (Mistake.about "'" word "' is a special form, calls to it will not use this definition")
      (some span.start) (some span.stop)).toArray

theorem warnings_eq (reporter : Reporter) (program : Expr) :
    warnings reporter program =
      (program.warned.map fun complaint => Output.written (reporter.warn complaint)).toArray := by
  rw [Expr.warned, List.map_map]
  rfl

theorem check_eq (workspace : Workspace) (program : Expr) :
    workspace.check program =
      { workspace with output := workspace.output ++ warnings workspace.reporter program } := by
  unfold check warnings
  induction program.redefinitions generalizing workspace with
  | nil => simp
  | cons first rest ih =>
      rw [List.foldl_cons, ih]
      simp [warnOf, write]

/-- The workspace of a run that is going on. -/
def running (workspace : Workspace) (source : String) : Workspace :=
  { workspace with reporter := workspace.reporter.register workspace.path source }

/-- The workspace after the evaluation of a program, given the store that is left. -/
def evaluated (workspace : Workspace) (program : Expr) (store : Store) : Workspace :=
  { workspace with
    store := store.quiet
    output := workspace.output ++ warnings workspace.reporter program ++
      store.printed.map .printed }

/-- The workspace after a program has got a value. -/
def succeeded (workspace : Workspace) (value : Value) : Workspace :=
  { workspace with
    results := value :: workspace.results
    reporter := workspace.reporter.remove workspace.path }

theorem run_of_error {limits : Limits} {source : String} {reason : Stop}
    (h : Expr.parse limits.depth source = .error reason) (workspace : Workspace) :
    workspace.run limits source = (.error reason.ending, workspace.running source) := by
  simp only [run, h, running]

theorem run_of_ok {limits : Limits} {source : String} {program : Expr}
    (h : Expr.parse limits.depth source = .ok program) (workspace : Workspace) :
    workspace.run limits source =
      match limits.eval program workspace.scope workspace.store.quiet with
      | (.error reason, store) =>
        (.error reason.ending, (workspace.running source).evaluated program store)
      | (.ok value, store) =>
        (.ok value, ((workspace.running source).evaluated program store).succeeded value) := by
  simp only [run, h, check_eq, perform, Store.quiet]
  generalize limits.eval program workspace.scope { workspace.store with printed := #[] } = out
  obtain ⟨result, store⟩ := out
  cases result <;> rfl

/-- A run changes no scope but that of the workspace. -/
theorem local_run (limits : Limits) (workspace : Workspace) (source : String) :
    let after := (workspace.run limits source).2
    after.scope = workspace.scope ∧
      workspace.store.scopes.size ≤ after.store.scopes.size ∧
      workspace.store.closures ≤ after.store.closures ∧
      (∀ id, id < workspace.store.scopes.size → id ≠ workspace.scope →
        after.store.scopes[id]? = workspace.store.scopes[id]?) ∧
      (workspace.store.printed = #[] → after.store.printed = #[]) := by
  cases hparse : Expr.parse limits.depth source with
  | error reason =>
      rw [run_of_error hparse]
      exact ⟨rfl, Nat.le_refl _, Nat.le_refl _, fun _ _ _ => rfl, fun h => h⟩
  | ok program =>
      have hlocal := Evaluator.local_eval limits.rounds limits.depth program workspace.scope
        workspace.store.quiet
      rw [run_of_ok hparse]
      unfold Limits.eval
      generalize eval limits.rounds limits.depth program workspace.scope workspace.store.quiet =
        out at hlocal ⊢
      obtain ⟨result, store⟩ := out
      cases result <;>
        exact ⟨rfl, hlocal.scopes, hlocal.closures, hlocal.others, fun _ => rfl⟩

/-- A run does the same in workspaces that are the same. -/
theorem Same.run {w : Correspondence} {workspace workspace' : Workspace}
    (h : Workspace.Same .strict w workspace workspace')
    (hstore : Store.Same .strict w workspace.store workspace'.store) (limits : Limits)
    (source : String) :
    ∃ w', w.Grows w' workspace.store workspace'.store (workspace.run limits source).2.store
        (workspace'.run limits source).2.store ∧
      Store.Same .strict w' (workspace.run limits source).2.store
        (workspace'.run limits source).2.store ∧
      Workspace.Same .strict w' (workspace.run limits source).2
        (workspace'.run limits source).2 ∧
      Ending.SameResult (Value.Same .strict w') (workspace.run limits source).1
        (workspace'.run limits source).1 := by
  have hreporter : (workspace.running source).reporter = (workspace'.running source).reporter := by
    simp only [running, h.reporter, h.path]
  cases hparse : Expr.parse limits.depth source with
  | error reason =>
      rw [run_of_error hparse, run_of_error hparse]
      exact ⟨w, .refl w _ _, hstore, ⟨h.path, h.scope, hreporter, h.results, h.output⟩, .error _⟩
  | ok program =>
      have hprogram : Expr.Same .strict w program program :=
        (Expr.plain_of_parse hparse).same (fun _ => rfl) w
      obtain ⟨w', hgrows, hsame, hresult⟩ := Evaluator.same_eval (Store.likeness .strict)
        limits.rounds limits.depth w program program workspace.scope workspace'.scope hprogram
        h.scope w workspace.store.quiet workspace'.store.quiet (.refl w) hstore.quiet
      rw [run_of_ok hparse, run_of_ok hparse]
      unfold Limits.eval
      generalize eval limits.rounds limits.depth program workspace.scope workspace.store.quiet =
        out, eval limits.rounds limits.depth program workspace'.scope workspace'.store.quiet =
        out' at hgrows hsame hresult ⊢
      obtain ⟨result, store⟩ := out
      obtain ⟨result', store'⟩ := out'
      have hoverlap : Workspace.Same .strict w'
          ((workspace.running source).evaluated program store)
          ((workspace'.running source).evaluated program store') := by
        refine ⟨h.path, hgrows.le.scopes _ _ h.scope, hreporter, h.results.mono hgrows.le, ?_⟩
        have houtput : (workspace.running source).output = (workspace'.running source).output :=
          h.output
        have hprinted : store.printed = store'.printed := hsame.printed_eq
        simp only [evaluated, houtput, hreporter, hprinted]
      refine ⟨w', ?_⟩
      cases hresult with
      | ok hvalue =>
          refine ⟨hgrows.quiet, hsame.quiet,
            ⟨h.path, hoverlap.scope, ?_, ?_, hoverlap.output⟩, .ok hvalue⟩
          · simp only [succeeded, hoverlap.reporter, hoverlap.path]
          · exact .cons hvalue hoverlap.results
      | error hreason =>
          simp only [hreason.eq]
          exact ⟨hgrows.quiet, hsame.quiet, hoverlap, .error _⟩

end Workspace

end CallLang
