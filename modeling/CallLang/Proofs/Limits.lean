/-
  CallLang/Proofs/Limits.lean
  ===========================
  **What a limit can do to a run.**

  A limit only ever cuts a run off: parsing and evaluating a program within limits is
  parsing and evaluating it within larger limits, as far as it gets.  A limit to the
  depth says nothing about the rounds of loops, so where only the depth grows, a run that
  does not break down at the limit is the very same run, even if it goes round for ever.
-/
import CallLang.Proofs.Refusals
import CallLang.Proofs.Workspaces

namespace CallLang

open CallLang.Action (CutOf Keeps)

variable {cuts : Stop → Prop} {depth depth' : Nat}

/-- What counts as cut off where only the depth is limited. -/
def Stop.AtDepth (reason : Stop) : Prop :=
  reason = .breakdown .tooDeep

theorem atDepth_tooDeep : Stop.AtDepth (.breakdown .tooDeep) := rfl

theorem Reader.cutOf_parse (hdeep : cuts (.breakdown .tooDeep)) {limit limit' : Nat}
    (hle : limit ≤ limit') {source : String} (h : Spared cuts (Expr.parse limit source)) :
    Expr.parse limit' source = Expr.parse limit source := by
  apply parse_of_le hle
  apply ended_parse
  intro hparse
  exact h _ hparse hdeep

theorem Action.CutOf.ofExcept {α : Type} {result result' : Except Stop α}
    (h : Spared cuts result → result' = result) :
    (Action.ofExcept result).CutOf cuts (Action.ofExcept result') := by
  intro store
  constructor
  · intro hspared
    exact congrArg (·, store) (h hspared)
  · exact List.prefix_rfl

/-! ### Programs by themselves -/

theorem Limits.cutOf_run (limits limits' : Limits) (hdeep : cuts (.breakdown .tooDeep))
    (hle : limits.rounds ≤ limits'.rounds)
    (hrounds : limits.rounds < limits'.rounds → cuts .unfinished)
    (hdepth : limits.depth ≤ limits'.depth) (source : String) (scope : ScopeId) :
    (limits.run source scope).CutOf cuts (limits'.run source scope) := by
  have heval : Evaluator.CutOf cuts limits.eval limits'.eval :=
    Evaluator.cutOf_eval hdeep hle hrounds hdepth
  refine CutOf.bind ?_ (fun program => ?_) fun program => ?_
  · exact .ofExcept (Reader.cutOf_parse hdeep hdepth)
  · exact CutOf.bind (.refl _) (fun inner => (heval program inner).1) fun inner =>
      (heval program inner).2
  · refine Keeps.bind (fun store => ?_) fun inner => (heval program inner).2
    exact (store.frozen_create (some scope) []).toGrows

/-- A limit to the depth only ever cuts a run off. -/
theorem Limits.depth_limit_cuts_off (hle : depth ≤ depth') (rounds : Nat)
    (source : String) (scope : ScopeId) (store : Store) :
    let out := Limits.run ⟨depth, rounds⟩ source scope store
    (out.1 ≠ .error (.breakdown .tooDeep) →
        Limits.run ⟨depth', rounds⟩ source scope store = out) ∧
      ∀ rounds', rounds ≤ rounds' → out.2.printed.toList <+:
        (Limits.run ⟨depth', rounds'⟩ source scope store).2.printed.toList := by
  constructor
  · intro hdeep
    -- with as many rounds, being unfinished is no matter of limits
    have hcut : (Limits.run ⟨depth, rounds⟩ source scope).CutOf Stop.AtDepth
        (Limits.run ⟨depth', rounds⟩ source scope) :=
      cutOf_run ⟨depth, rounds⟩ ⟨depth', rounds⟩ atDepth_tooDeep (Nat.le_refl rounds)
        (fun hlt => absurd hlt (Nat.lt_irrefl rounds)) hle source scope
    apply (hcut store).1
    rintro reason hreason rfl
    exact hdeep hreason
  · intro rounds' hrounds
    have hcut : (Limits.run ⟨depth, rounds⟩ source scope).CutOf Stop.CutOff
        (Limits.run ⟨depth', rounds'⟩ source scope) :=
      cutOf_run ⟨depth, rounds⟩ ⟨depth', rounds'⟩ cutOff_tooDeep hrounds (fun _ => cutOff_unfinished)
        hle source scope
    exact (hcut store).2

/-- What is printed before the run is cut off is printed under a larger limit too, under which
    the run ends. -/
theorem Limits.depth_limit_cuts_off_print :
    let source := "do(print(true), print(==(true, false)))"
    let globals := Store.empty.createGlobal
    let out := Limits.run ⟨3, 0⟩ source globals.1 globals.2
    let out' := Limits.run ⟨4, 0⟩ source globals.1 globals.2
    (3 : Nat) ≤ 4 ∧ out.1 = .error (.breakdown .tooDeep) ∧ out.2.printed = #["true"] ∧
      out'.2.printed = #["true", "false"] ∧ out.2.printed.toList <+: out'.2.printed.toList ∧
      out'.1 ≠ .error (.breakdown .tooDeep) ∧
      Limits.run ⟨9, 0⟩ source globals.1 globals.2 = out' := by
  intro source globals out out'
  have hout' : out'.1 ≠ .error (.breakdown .tooDeep) := by
    have hok : out'.1.isOk = true := by
      simp only [out', globals, source]
      cbv
    intro hdeep
    rw [hdeep] at hok
    cases hok
  refine ⟨by decide, ?_, ?_, ?_, ?_, hout', ?_⟩
  · simp only [out, globals, source]
    cbv
  · simp only [out, globals, source]
    cbv
  · simp only [out', globals, source]
    cbv
  · exact (Limits.depth_limit_cuts_off (by decide : 3 ≤ 4) 0 source globals.1 globals.2).2 0 (Nat.le_refl 0)
  · exact (Limits.depth_limit_cuts_off (by decide : 4 ≤ 9) 0 source globals.1 globals.2).1 hout'

/-! ### Sessions -/

namespace Workspace

variable {workspace : Workspace} {source : String}

theorem output_prefix_run (limits : Limits) (workspace : Workspace) (source : String) :
    workspace.output.toList <+: (workspace.run limits source).2.output.toList := by
  cases hparse : Expr.parse limits.depth source with
  | error reason =>
      rw [run_of_error hparse]
      exact List.prefix_rfl
  | ok program =>
      rw [run_of_ok hparse]
      generalize limits.eval program workspace.scope workspace.store.quiet = out
      obtain ⟨reason | value, store⟩ := out <;>
        simp [evaluated, succeeded, running]

/-- A run in a session is a run within larger limits, as far as it gets. -/
theorem cutOf_run (limits limits' : Limits) (hdeep : cuts (.breakdown .tooDeep))
    (hle : limits.rounds ≤ limits'.rounds)
    (hrounds : limits.rounds < limits'.rounds → cuts .unfinished)
    (hdepth : limits.depth ≤ limits'.depth) (workspace : Workspace) (source : String) :
    ((∀ reason, cuts reason → (workspace.run limits source).1 ≠ .error reason.ending) →
        workspace.run limits' source = workspace.run limits source) ∧
      (workspace.run limits source).2.output.toList <+:
        (workspace.run limits' source).2.output.toList := by
  have hsame : Spared cuts (Expr.parse limits.depth source) →
      Expr.parse limits'.depth source = Expr.parse limits.depth source :=
    Reader.cutOf_parse hdeep hdepth
  cases hparse : Expr.parse limits.depth source with
  | error reason =>
      rw [hparse] at hsame
      rw [run_of_error hparse]
      constructor
      · intro hspared
        have hparse' : Expr.parse limits'.depth source = .error reason := by
          apply hsame
          rintro other ⟨rfl⟩ hcut
          exact hspared _ hcut rfl
        exact run_of_error hparse' workspace
      · exact output_prefix_run limits' workspace source
  | ok program =>
      rw [hparse] at hsame
      have hcut := (Evaluator.cutOf_eval hdeep hle hrounds hdepth program workspace.scope).1
        workspace.store.quiet
      rw [run_of_ok hparse, run_of_ok (hsame nofun)]
      unfold Limits.eval
      generalize eval limits.rounds limits.depth program workspace.scope workspace.store.quiet =
        out, eval limits'.rounds limits'.depth program workspace.scope workspace.store.quiet =
        whole at hcut ⊢
      obtain ⟨hwhole, hprinted⟩ := hcut
      constructor
      · intro hspared
        rw [hwhole]
        intro reason hreason hcut
        obtain ⟨_, store⟩ := out
        obtain rfl := hreason
        exact hspared reason hcut rfl
      · obtain ⟨reason | value, store⟩ := out <;> obtain ⟨reason' | value', store'⟩ := whole <;>
          simpa [evaluated, succeeded] using hprinted.map Output.printed

/-- A limit to the depth only ever cuts a run in a session off. -/
theorem run_of_depth_le (hle : depth ≤ depth') (rounds : Nat)
    (workspace : Workspace) (source : String) :
    let out := workspace.run ⟨depth, rounds⟩ source
    (out.1 ≠ .error (.breakdown .tooDeep) → workspace.run ⟨depth', rounds⟩ source = out) ∧
      ∀ rounds', rounds ≤ rounds' → out.2.output.toList <+:
        (workspace.run ⟨depth', rounds'⟩ source).2.output.toList := by
  constructor
  · intro hdeep
    apply (cutOf_run ⟨depth, rounds⟩ ⟨depth', rounds⟩ atDepth_tooDeep
      (Nat.le_refl rounds) (fun hlt => absurd hlt (Nat.lt_irrefl rounds)) hle workspace source).1
    rintro reason rfl
    exact hdeep
  · intro rounds' hrounds
    exact (cutOf_run ⟨depth, rounds⟩ ⟨depth', rounds'⟩ cutOff_tooDeep hrounds
      (fun _ => cutOff_unfinished) hle workspace source).2

end Workspace

end CallLang
