/-
  CallLang/Proofs/Cutoff.lean
  ===========================
  **What limits can do.**

  A run may be cut off because something nests too deep or because a loop goes
  round too often.  That is all that limits can do: under larger limits a run that
  is not cut off comes to the same, and one that is goes on from where it was, so
  that what it has printed stands first in what is printed then.

  Hence all limits under which a run ends agree on what it comes to.
-/
import CallLang.Proofs.Display
import CallLang.Proofs.Locality

namespace CallLang

/-! ### Ends -/

/-- Whether work was cut off by a limit. -/
def Stop.CutOff : Stop → Prop
  | .breakdown .tooDeep => True
  | .unfinished => True
  | _ => False

theorem cutOff_tooDeep : Stop.CutOff (.breakdown .tooDeep) := trivial

theorem cutOff_unfinished : Stop.CutOff .unfinished := trivial

/-- Whether a result was reached without being cut off. -/
def Ended {α : Type} (result : Except Stop α) : Prop :=
  ∀ reason, result = .error reason → ¬reason.CutOff

theorem ended_ok {α : Type} (a : α) : Ended (.ok a) := by
  intro reason h
  cases h

theorem not_ended {α : Type} {reason : Stop} (h : reason.CutOff) :
    ¬Ended (.error reason : Except Stop α) := by
  intro hended
  exact hended reason rfl h

theorem not_ended_tooDeep {α : Type} : ¬Ended (.error (.breakdown .tooDeep) : Except Stop α) :=
  not_ended cutOff_tooDeep

theorem not_ended_unfinished {α : Type} : ¬Ended (.error .unfinished : Except Stop α) :=
  not_ended cutOff_unfinished

theorem ended_error {α β : Type} {reason : Stop} (h : Ended (.error reason : Except Stop α)) :
    Ended (.error reason : Except Stop β) := by
  rintro _ ⟨rfl⟩
  exact h reason rfl

theorem ended_breakdown {α : Type} {cause : Breakdown} (h : cause ≠ .tooDeep) :
    Ended (.error (.breakdown cause) : Except Stop α) := by
  rintro _ ⟨rfl⟩
  cases cause with
  | tooDeep => exact absurd rfl h
  | _ => exact id

instance : IsPreorder Store Store.Grows where
  refl := Store.Grows.refl
  trans _ _ _ := Store.Grows.trans

/-- Whether a result was not cut off for any of some reasons. -/
def Spared {α : Type} (cuts : Stop → Prop) (result : Except Stop α) : Prop :=
  ∀ reason, result = .error reason → ¬cuts reason

/-- Whether an action does what another does, as far as it gets: all of it, unless it is cut
    off for one of some reasons. -/
def Action.CutOf {α : Type} (cuts : Stop → Prop) (action whole : Action α) : Prop :=
  ∀ store, (Spared cuts (action store).1 → whole store = action store) ∧
    (action store).2.printed.toList <+: (whole store).2.printed.toList

variable {cuts : Stop → Prop}

namespace Action.CutOf

variable {α β : Type}

theorem refl (action : Action α) : action.CutOf cuts action :=
  fun _ => ⟨fun _ => rfl, List.prefix_rfl⟩

theorem stop {reason : Stop} (h : cuts reason) {whole : Action α}
    (hgrows : whole.Keeps Store.Grows) : (Action.stop reason).CutOf cuts whole :=
  fun store => ⟨fun hspared => absurd h (hspared reason rfl), (hgrows store).printed⟩

theorem bind {first first' : Action α} {second second' : α → Action β}
    (hfirst : first.CutOf cuts first') (hsecond : ∀ a, (second a).CutOf cuts (second' a))
    (hgrows : ∀ a, (second' a).Keeps Store.Grows) :
    (Action.bind first second).CutOf cuts (Action.bind first' second') := by
  intro store
  obtain ⟨hsame, hprinted⟩ := hfirst store
  unfold Action.bind
  generalize first store = out, first' store = out' at hsame hprinted ⊢
  obtain ⟨result, after⟩ := out
  obtain ⟨result', after'⟩ := out'
  cases result with
  | ok a =>
      cases hsame nofun
      exact hsecond a after
  | error reason =>
      constructor
      · intro hspared
        cases hsame fun other hother => hspared other (congrArg Except.error (Except.error.inj hother))
        rfl
      · cases result' with
        | ok a => exact hprinted.trans (hgrows a after').printed
        | error reason' => exact hprinted

end Action.CutOf

/-! ### Values -/

theorem Action.CutOf.ofBreakdown (hdeep : cuts (.breakdown .tooDeep)) {α : Type}
    {result result' : Except Breakdown α} (h : result ≠ .error .tooDeep → result' = result) :
    (Action.ofBreakdown result).CutOf cuts (Action.ofBreakdown result') := by
  by_cases hresult : result = .error .tooDeep
  · rw [hresult]
    exact .stop hdeep (.ofBreakdown result')
  · rw [h hresult]
    exact .refl _

/-! ### Evaluation -/

/-- Whether an evaluator does with every expression what another does, as far as it
    gets. -/
def Evaluator.CutOf (cuts : Stop → Prop) (evaluate whole : Evaluator) : Prop :=
  ∀ expr scope, (evaluate expr scope).CutOf cuts (whole expr scope) ∧
    (whole expr scope).Keeps Store.Grows

open CallLang.Action (CutOf Keeps)

theorem Builtin.cutOf_apply (hdeep : cuts (.breakdown .tooDeep)) {limit limit' : Nat}
    (hle : limit ≤ limit') (place : Option Span) (function : Builtin) (arguments : List Value) :
    (function.apply limit place arguments).CutOf cuts (function.apply limit' place arguments) := by
  cases function.use arguments with
  | equal a b =>
      refine CutOf.bind (.ofBreakdown hdeep fun h => Value.equal_of_le hle h) (fun _ => .refl _) fun _ => ?_
      exact Keeps.pure _
  | print value =>
      refine CutOf.bind (.ofBreakdown hdeep fun h => Value.display_of_le hle h) (fun _ => .refl _)
        fun text => ?_
      exact Keeps.bind (fun store => (store.frozen_print text).toGrows) fun _ => Keeps.pure _
  | wrong hexpected hlength =>
      rw [apply_misused hexpected hlength, apply_misused hexpected hlength]
      exact .refl _
  | _ => exact .refl _

namespace Evaluator

variable {evaluate whole : Evaluator} {scope : ScopeId}

theorem cutOf_all (h : Evaluator.CutOf cuts evaluate whole) (exprs : List Expr) :
    (all evaluate scope exprs).CutOf cuts (all whole scope exprs) := by
  induction exprs with
  | nil => exact .refl _
  | cons expr rest ih =>
      refine CutOf.bind (h expr scope).1 (fun value => ?_) fun value => ?_
      · exact CutOf.bind ih (fun _ => .refl _) fun _ => Keeps.pure _
      · exact Keeps.bind (Keeps.all fun other _ => (h other scope).2) fun _ => Keeps.pure _

theorem cutOf_last (h : Evaluator.CutOf cuts evaluate whole) (value : Value) (exprs : List Expr) :
    (last evaluate scope value exprs).CutOf cuts (last whole scope value exprs) := by
  induction exprs generalizing value with
  | nil => exact .refl _
  | cons expr rest ih =>
      exact CutOf.bind (h expr scope).1 ih fun value => Keeps.last value fun other _ =>
        (h other scope).2

/-- A loop may go round more often where it counts as cut off that it may not. -/
theorem cutOf_repeatWhile (h : Evaluator.CutOf cuts evaluate whole) (test body : Expr)
    {rounds rounds' : Nat} (hle : rounds ≤ rounds')
    (hrounds : rounds < rounds' → cuts .unfinished) :
    (repeatWhile evaluate scope test body rounds).CutOf cuts
      (repeatWhile whole scope test body rounds') := by
  have hgrows : ∀ rounds, (repeatWhile whole scope test body rounds).Keeps Store.Grows :=
    fun rounds => Keeps.repeatWhile rounds (h test scope).2 (h body scope).2
  induction rounds generalizing rounds' with
  | zero =>
      rcases Nat.eq_zero_or_pos rounds' with rfl | hpos
      · exact .refl _
      · exact .stop (hrounds hpos) (hgrows rounds')
  | succ rounds ih =>
      obtain ⟨rounds', rfl⟩ := Nat.exists_eq_add_one.2 (Nat.lt_of_lt_of_le (Nat.succ_pos _) hle)
      refine CutOf.bind (h test scope).1 (fun answer => ?_) fun answer => ?_
      · split
        · exact CutOf.bind (h body scope).1 
            (fun _ => ih (Nat.le_of_succ_le_succ hle) fun hlt => hrounds (Nat.succ_lt_succ hlt))
            fun _ => hgrows rounds'
        · exact .refl _
      · split
        · exact Keeps.bind (h body scope).2 fun _ => hgrows rounds'
        · exact Keeps.pure _

theorem cutOf_form (h : Evaluator.CutOf cuts evaluate whole) {rounds rounds' : Nat}
    (hle : rounds ≤ rounds') (hrounds : rounds < rounds' → cuts .unfinished) (f : Form)
    (operands : List Expr) (span : Span) :
    (form rounds evaluate scope f operands span).CutOf cuts
      (form rounds' whole scope f operands span) := by
  cases f.use operands with
  | conditional test yes no =>
      rw [form_conditional, form_conditional]
      refine CutOf.bind (h test scope).1 (fun answer => ?_) fun answer => ?_
      · split
        · exact (h yes scope).1
        · exact (h no scope).1
      · split
        · exact (h yes scope).2
        · exact (h no scope).2
  | loop test body =>
      rw [form_loop, form_loop]
      exact cutOf_repeatWhile h test body hle hrounds
  | sequence operands =>
      rw [form_sequence, form_sequence]
      exact cutOf_last h _ operands
  | define name place expr =>
      rw [form_define, form_define]
      refine CutOf.bind (h expr scope).1 (fun _ => .refl _) fun value => ?_
      refine Keeps.bind ?_ fun _ => Keeps.pure _
      exact fun store => store.grows_define scope name value
  | function parameters body =>
      rw [form_function, form_function]
      exact .refl _
  | wrong hwrong =>
      rw [form_misused rounds evaluate scope span hwrong, form_misused rounds' whole scope span hwrong]
      exact .refl _

theorem cutOf_apply (h : Evaluator.CutOf cuts evaluate whole) (hdeep : cuts (.breakdown .tooDeep))
    {limit limit' : Nat} (hle : limit ≤ limit') (place : Option Span) (callee : Value)
    (arguments : List Value) :
    (apply limit evaluate place callee arguments).CutOf cuts
      (apply limit' whole place callee arguments) := by
  have hshown : (Action.bind (Action.ofBreakdown (Value.display limit false callee)) fun shown =>
        Action.fail (.notFunction callee.kind shown) place : Action Value).CutOf cuts
      (Action.bind (Action.ofBreakdown (Value.display limit' false callee)) fun shown =>
        Action.fail (.notFunction callee.kind shown) place) :=
    CutOf.bind (.ofBreakdown hdeep fun hshown => Value.display_of_le hle hshown) (fun _ => .refl _)
      fun _ => Keeps.fail _ _
  cases callee with
  | closure id parameters body scope =>
      simp only [apply]
      split
      · exact CutOf.bind (.refl _) (fun inner => (h body inner).1) fun inner => (h body inner).2
      · exact .refl _
  | builtin function home => exact function.cutOf_apply hdeep hle place arguments
  | _ => exact hshown

/-- An evaluation within limits is an evaluation within larger limits, as far as it
    gets. -/
theorem cutOf_eval (hdeep : cuts (.breakdown .tooDeep)) {rounds rounds' depth depth' : Nat}
    (hle : rounds ≤ rounds') (hrounds : rounds < rounds' → cuts .unfinished)
    (hdepth : depth ≤ depth') : Evaluator.CutOf cuts (eval rounds depth) (eval rounds' depth') := by
  have hgrows : ∀ depth expr scope, (eval rounds' depth expr scope).Keeps Store.Grows :=
    fun depth expr scope => (local_eval rounds' depth expr scope).mono fun _ _ hlocal =>
      hlocal.toGrows
  induction depth generalizing depth' with
  | zero =>
      intro expr scope
      exact ⟨.stop hdeep (hgrows depth' expr scope), hgrows depth' expr scope⟩
  | succ depth ih =>
      intro expr scope
      refine ⟨?_, hgrows depth' expr scope⟩
      obtain ⟨depth', rfl⟩ := Nat.exists_eq_add_one.2 (Nat.lt_of_lt_of_le (Nat.succ_pos _) hdepth)
      have h := ih (Nat.le_of_succ_le_succ hdepth)
      cases expr with
      | call operator arguments span =>
          simp only [eval]
          split
          · next f _ => exact cutOf_form h hle hrounds f arguments span
          · have happly : ∀ callee values,
                (apply depth' (eval rounds' depth') (some span) callee values).Keeps Store.Grows :=
              fun callee values => (frozen_apply (local_eval rounds' depth') depth' (some span)
                callee values).mono fun _ _ hfrozen => hfrozen.toGrows
            refine CutOf.bind (h operator scope).1 (fun callee => ?_) fun callee => ?_
            · exact CutOf.bind (cutOf_all h arguments)
                (fun values => cutOf_apply h hdeep (Nat.le_of_succ_le_succ hdepth) _ callee values)
                fun values => happly callee values
            · exact Keeps.bind (Keeps.all fun other _ => (h other scope).2) fun values =>
                happly callee values
      | _ => exact .refl _

end Evaluator

/-- An evaluation that ends within limits comes to the same within larger limits. -/
theorem Limits.cutOf_eval {limits limits' : Limits} (hrounds : limits.rounds ≤ limits'.rounds)
    (hdepth : limits.depth ≤ limits'.depth) :
    Evaluator.CutOf Stop.CutOff limits.eval limits'.eval :=
  Evaluator.cutOf_eval cutOff_tooDeep hrounds (fun _ => cutOff_unfinished) hdepth

/-- All limits under which an evaluation ends agree on it. -/
theorem Limits.eval_eq_of_ended {limits limits' : Limits} {expr : Expr} {scope : ScopeId}
    {store : Store} (h : Ended (limits.eval expr scope store).1)
    (h' : Ended (limits'.eval expr scope store).1) :
    limits.eval expr scope store = limits'.eval expr scope store := by
  let both : Limits := ⟨max limits.depth limits'.depth, max limits.rounds limits'.rounds⟩
  have hleft : Evaluator.CutOf Stop.CutOff limits.eval both.eval :=
    cutOf_eval (Nat.le_max_left _ _) (Nat.le_max_left _ _)
  have hright : Evaluator.CutOf Stop.CutOff limits'.eval both.eval :=
    cutOf_eval (Nat.le_max_right _ _) (Nat.le_max_right _ _)
  exact (((hleft expr scope).1 store).1 h).symm.trans (((hright expr scope).1 store).1 h')

end CallLang
