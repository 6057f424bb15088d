/-
  CallLang/Proofs/Observations.lean
  =================================
  **What can be seen of values.**

  Whoever knows values can apply them to each other, and what comes of that is known from
  then on.  All that is ever seen of values are the texts that are printed in the course of
  this, the mistakes, and those results that contain no closure.

  Where two evaluations run in step, the values they have come to look alike: no series of
  applications tells those of one from those of the other.
-/
import CallLang.Proofs.Homes

namespace CallLang

/-- An application of a known value to known values, each given by its place in the list of
    those that are known. -/
structure Application where
  limits : Limits
  place : Option Span
  callee : Nat
  arguments : List Nat

namespace Application

/-- Applies the values.  What is not known counts as false. -/
def perform (application : Application) (known : List Value) : Action Value :=
  application.limits.apply application.place (known.getD application.callee (.boolean false))
    (application.arguments.map fun index => known.getD index (.boolean false))

/-- Performs applications one after another, whether they fail or not, and yields what each
    has come to. -/
def observe : List Application → List Value → Store → List (Except Stop Value) × Store
  | [], _, store => ([], store)
  | application :: rest, known, store =>
    let (result, after) := application.perform known store
    let (results, last) := observe rest (known ++ result.toOption.toList) after
    (result :: results, last)

end Application

/-- Whether two results look alike: they are the same reason to stop, or the same value, or both
    are values that contain closures. -/
inductive Result.Indistinct : Except Stop Value → Except Stop Value → Prop where
  | error (reason : Stop) : Result.Indistinct (.error reason) (.error reason)
  | value {value : Value} (h : ¬value.HasClosure) : Result.Indistinct (.ok value) (.ok value)
  | closure {value value' : Value} (h : value.HasClosure) (h' : value'.HasClosure) :
      Result.Indistinct (.ok value) (.ok value')

/-! ### Evaluations in step -/

/-- Whether two stores are alike, and so far no built-in functions occur but those of scopes that
    stand for themselves. -/
structure Store.InStep (like : Correspondence → Store → Store → Prop) (bound : ScopeId)
    (w : Correspondence) (store store' : Store) : Prop where
  alike : like w store store'
  homes : store.Holds (fun _ => True) (Value.HomesBelow bound)
  size : bound ≤ store.scopes.size
  old : ∀ home < bound, ∀ home', w.scopes home home' → home' = home

section

variable {like : Correspondence → Store → Store → Prop} {bound : ScopeId} {w : Correspondence}
  {store store' : Store}

theorem Result.Same.indistinct (hold : ∀ home < bound, ∀ home', w.scopes home home' → home' = home)
    {result result' : Except Stop Value}
    (h : Result.Same .strict (Value.Same .strict w) result result')
    (hhomes : ∀ value, result = .ok value → value.HomesBelow bound) :
    Result.Indistinct result result' := by
  cases h with
  | error hreason =>
      obtain rfl := hreason.eq
      exact .error _
  | @ok value value' hvalue =>
      by_cases hclosure : value.HasClosure
      · exact .closure hclosure (hvalue.hasClosure_iff.1 hclosure)
      · obtain rfl := hvalue.eq hold (hhomes value rfl) hclosure
        exact .value hclosure

/-- Actions that do the same keep stores in step. -/
theorem Store.InStep.action {action action' : Action Value}
    (h : store.InStep like bound w store')
    (hsame : Action.Same .strict like w (Value.Same .strict) action action')
    (hmeets : action.Meets (.homesBelow bound) store (Invariant.homesBelow bound).value) :
    ∃ w', w.Le w' ∧ (action store).2.InStep like bound w' (action' store').2 ∧
      Result.Same .strict (Value.Same .strict w') (action store).1 (action' store').1 ∧
      ∀ value, (action store).1 = .ok value → value.HomesBelow bound := by
  obtain ⟨w', hgrows, halike, hresult⟩ := hsame w store store' (.refl w) h.alike
  obtain ⟨hhomes, hafter, hvalue, -⟩ := hmeets store (.refl store) h.homes
  refine ⟨w', hgrows.le, ⟨halike, hhomes, Nat.le_trans h.size hafter.scopes, ?_⟩, hresult, hvalue⟩
  -- what the correspondence has grown by is new, and so it is not below the bound
  intro home hhome home' hhome'
  rcases hgrows.scopes.fresh hhome' with hbefore | ⟨hnew, -⟩
  · exact h.old home hhome home' hbefore
  · exact absurd (Nat.lt_of_lt_of_le hhome h.size) (Nat.not_lt.2 hnew)

end

/-! ### Series of applications -/

section

variable {c : Comparison} {w : Correspondence}

theorem Value.AllSame.append {as as' bs bs' : List Value} (has : Value.AllSame c w as as')
    (hbs : Value.AllSame c w bs bs') : Value.AllSame c w (as ++ bs) (as' ++ bs') := by
  induction as generalizing as' with
  | nil =>
      cases has with
      | nil => exact hbs
  | cons a as ih =>
      cases has with
      | cons ha has => exact .cons ha (ih has)

theorem Value.AllSame.getD {as as' : List Value} (h : Value.AllSame c w as as') (index : Nat)
    {a a' : Value} (ha : Value.Same c w a a') :
    Value.Same c w (as.getD index a) (as'.getD index a') := by
  have hfound := h.getElem? index
  rw [List.getD_eq_getElem?_getD, List.getD_eq_getElem?_getD]
  generalize as[index]? = found, as'[index]? = found' at hfound
  cases hfound with
  | some hvalue => exact hvalue
  | none => exact ha

theorem Value.allSame_map {α : Type} {f f' : α → Value} (h : ∀ a, Value.Same c w (f a) (f' a))
    (as : List α) : Value.AllSame c w (as.map f) (as.map f') := by
  induction as with
  | nil => exact .nil
  | cons a as ih => exact .cons (h a) ih

end

namespace Application

variable {like : Correspondence → Store → Store → Prop} {bound : ScopeId} {w : Correspondence}
  {store store' : Store} {known known' : List Value}

theorem same_perform (hlike : Likeness .strict like) (application : Application)
    (h : Value.AllSame .strict w known known') :
    Action.Same .strict like w (Value.Same .strict) (application.perform known)
      (application.perform known') := by
  have hvalue : ∀ index, Value.Same .strict w (known.getD index (.boolean false))
      (known'.getD index (.boolean false)) := fun index => h.getD index (.boolean false)
  exact Evaluator.same_apply hlike (Evaluator.same_eval hlike _ _) _
    (Comparison.rel_place (fun _ => rfl) _) (hvalue _) (Value.allSame_map hvalue _)

theorem meets_perform (application : Application) (h : ∀ value ∈ known, value.HomesBelow bound) :
    (application.perform known).Meets (.homesBelow bound) store
      (Invariant.homesBelow bound).value := by
  have hvalue : ∀ index, (known.getD index (.boolean false)).HomesBelow bound := by
    intro index
    rw [List.getD_eq_getElem?_getD]
    cases hfound : known[index]? with
    | none => exact .boolean false
    | some value => exact h value (List.mem_of_getElem? hfound)
  refine Evaluator.meets_apply (Invariant.kept_homesBelow bound)
    (Evaluator.meets_eval (Invariant.kept_homesBelow bound) _ _) _ (fun _ _ _ => trivial)
    (hvalue _) fun argument hmem => ?_
  obtain ⟨index, -, rfl⟩ := List.mem_map.1 hmem
  exact hvalue index

/-- Values that are the same look alike in all applications. -/
theorem observe_indistinct (hlike : Likeness .strict like) (applications : List Application)
    (h : store.InStep like bound w store') (hknown : Value.AllSame .strict w known known')
    (hhomes : ∀ value ∈ known, value.HomesBelow bound) :
    (∃ w', (observe applications known store).2.InStep like bound w'
        (observe applications known' store').2) ∧
      List.Forall₂ Result.Indistinct (observe applications known store).1
        (observe applications known' store').1 := by
  induction applications generalizing w store store' known known' with
  | nil => exact ⟨⟨w, h⟩, .nil⟩
  | cons application rest ih =>
      obtain ⟨w', hle, hafter, hresult, hvalue⟩ :=
        h.action (application.same_perform hlike hknown) (application.meets_perform hhomes)
      simp only [observe]
      generalize application.perform known store = out, application.perform known' store' = out'
        at hafter hresult hvalue ⊢
      obtain ⟨result, after⟩ := out
      obtain ⟨result', after'⟩ := out'
      have hnew : Value.AllSame .strict w' result.toOption.toList result'.toOption.toList := by
        cases hresult with
        | ok hsame => exact .cons hsame .nil
        | error hreason => exact .nil
      have hhomes' : ∀ value ∈ known ++ result.toOption.toList, value.HomesBelow bound := by
        intro value hmem
        rcases List.mem_append.1 hmem with hmem | hmem
        · exact hhomes value hmem
        · cases result with
          | error reason => cases hmem
          | ok found => exact hvalue value (congrArg _ (List.mem_singleton.1 hmem).symm)
      obtain ⟨hlast, hresults⟩ := ih hafter ((hknown.mono hle).append hnew) hhomes'
      exact ⟨hlast, .cons (hresult.indistinct hafter.old hvalue) hresults⟩

end Application

end CallLang
