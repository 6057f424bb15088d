/-
  CallLang/Proofs/Breakdowns.lean
  ===============================
  **What applications break down at.**

  Limits apart, an application breaks down for two reasons: an integer beyond the
  range of doubles meets a double in a sum, difference or product, or an integer of
  too many digits is to be shown.  Quotients and comparisons never break down.
-/
import CallLang.Proofs.Cutoff
import CallLang.Proofs.Steps

namespace CallLang

/-! ### Numbers -/

/-- Whether one of two numbers is a double and the other an integer beyond the range of
    doubles. -/
inductive Number.Mixed : Number → Number → Prop where
  | left {n : Int} (x : Double) (h : 2 ^ 1024 - 2 ^ 970 ≤ n.natAbs) :
      Number.Mixed (.int n) (.double x)
  | right {n : Int} (x : Double) (h : 2 ^ 1024 - 2 ^ 970 ≤ n.natAbs) :
      Number.Mixed (.double x) (.int n)

namespace Number

theorem toDouble?_int (n : Int) : (int n).toDouble? = Double.ofInt? n := rfl

theorem toDouble?_eq_none_iff (a : Number) :
    a.toDouble? = none ↔ ∃ n, a = .int n ∧ 2 ^ 1024 - 2 ^ 970 ≤ n.natAbs := by
  cases a with
  | int n =>
      rw [toDouble?_int, Double.ofInt?_eq_none_iff]
      constructor
      · exact fun h => ⟨n, rfl, h⟩
      · rintro ⟨_, ⟨rfl⟩, h⟩
        exact h
  | double x =>
      constructor
      · exact nofun
      · rintro ⟨_, ⟨⟩, -⟩

/-- Arithmetic fails if one operand cannot be made a double, unless both are integers. -/
theorem arithmetic_eq_none (exact : Int → Int → Int) (rounded : Double → Double → Double)
    (a b : Number) :
    arithmetic exact rounded a b = none ↔
      (∀ m n, a = .int m → b ≠ .int n) ∧ (a.toDouble? = none ∨ b.toDouble? = none) := by
  unfold arithmetic
  generalize a.toDouble? = x, b.toDouble? = y
  cases a <;> cases b <;> cases x <;> cases y <;> simp

theorem arithmetic_eq_none_iff (exact : Int → Int → Int) (rounded : Double → Double → Double)
    (a b : Number) : arithmetic exact rounded a b = none ↔ a.Mixed b := by
  rw [arithmetic_eq_none, toDouble?_eq_none_iff, toDouble?_eq_none_iff]
  constructor
  · rintro ⟨hints, ⟨n, rfl, h⟩ | ⟨n, rfl, h⟩⟩
    · cases b with
      | int m => exact absurd rfl (hints n m rfl)
      | double y => exact .left y h
    · cases a with
      | int m => exact absurd rfl (hints m n rfl)
      | double x => exact .right x h
  · intro h
    cases h with
    | left y h => exact ⟨fun _ _ _ => nofun, .inl ⟨_, rfl, h⟩⟩
    | right x h => exact ⟨nofun, .inr ⟨_, rfl, h⟩⟩

end Number

/-! ### Actions -/

/-- Whether an action breaks down in a store. -/
def Action.Breaks {α : Type} (action : Action α) (store : Store) (cause : Breakdown) : Prop :=
  (action store).1 = .error (.breakdown cause)

namespace Action

variable {α β : Type} {store : Store} {cause : Breakdown}

@[simp] theorem breaks_pure (a : α) : (Action.pure a).Breaks store cause ↔ False := by
  simp [Breaks, pure]

@[simp] theorem breaks_fail (mistake : Mistake) (place : Option Span) :
    (fail (α := α) mistake place).Breaks store cause ↔ False := by
  simp [Breaks, fail, stop]

@[simp] theorem breaks_stop (other : Breakdown) :
    (stop (α := α) (.breakdown other)).Breaks store cause ↔ cause = other := by
  simp [Breaks, stop, eq_comm]

@[simp] theorem breaks_ofBreakdown_bind (result : Except Breakdown α) (second : α → Action β) :
    (bind (ofBreakdown result) second).Breaks store cause ↔
      result = .error cause ∨ ∃ a, result = .ok a ∧ (second a).Breaks store cause := by
  cases result with
  | ok a => simp [Breaks, bind, ofBreakdown, pure]
  | error other => simp [Breaks, bind, ofBreakdown, stop]

end Action

/-! ### Built-in functions -/

namespace Builtin

/-- What built-in functions break down at, limits apart. -/
inductive Breaks : Builtin → List Value → Breakdown → Prop where
  | mixed {function : Builtin} {a b : Number}
      (hfunction : function = .add ∨ function = .subtract ∨ function = .multiply)
      (h : a.Mixed b) : Breaks function [.number a, .number b] .beyondDoubles
  | shown {value : Value} (h : value.Long) : Breaks .print [value] .longInteger
  | index {items : List Value} {n : Int} (hindex : n < 0 ∨ items.length ≤ n)
      (h : tooLong ≤ n.natAbs) : Breaks .element [.array items, .int n] .longInteger

variable {a b : Value} {place : Option Span} {store : Store} {cause : Breakdown}

theorem arithmetic_breaks_iff (function : Builtin) (operation : Number → Number → Option Number) :
    (arithmetic function operation a b place).Breaks store cause ↔
      ∃ m n, a = .number m ∧ b = .number n ∧ operation m n = none ∧ cause = .beyondDoubles := by
  unfold arithmetic
  split
  · next m n =>
      cases hresult : operation m n with
      | none => simp [hresult]
      | some sum => simp [hresult]
  · next hnumbers =>
      simp only [badOperands, Action.breaks_fail, false_iff]
      rintro ⟨m, n, rfl, rfl, -⟩
      exact hnumbers m n rfl rfl

theorem sum_breaks_iff :
    (sum a b place).Breaks store cause ↔
      ∃ m n, a = .number m ∧ b = .number n ∧ Number.add m n = none ∧ cause = .beyondDoubles := by
  unfold sum
  split
  · simp
  · exact arithmetic_breaks_iff _ _
  · next hnumbers =>
      simp only [badOperands, Action.breaks_fail, false_iff]
      rintro ⟨m, n, rfl, rfl, -⟩
      exact hnumbers m n rfl rfl

theorem not_breaks_quotient : ¬(quotient a b place).Breaks store cause := by
  unfold quotient
  split
  · split <;> simp
  · simp [badOperands]

theorem not_breaks_comparison (function : Builtin) (numbers : Number → Number → Bool)
    (strings : String → String → Bool) :
    ¬(comparison function numbers strings a b place).Breaks store cause := by
  unfold comparison
  split <;> simp [badOperands]

/-- The message about an index is all that can break down. -/
theorem item_breaks_iff (items : List Value) (index : Number) :
    (item items index place).Breaks store cause ↔
      ∃ n, index = .int n ∧ (n < 0 ∨ items.length ≤ n) ∧ tooLong ≤ n.natAbs ∧
        cause = .longInteger := by
  have hmissing : ∀ n : Int, (if n < 0 then none else items[n.toNat]?) = none ↔
      n < 0 ∨ items.length ≤ n := by
    intro n
    by_cases hn : n < 0
    · simp [hn]
    · rw [if_neg hn, List.getElem?_eq_none_iff]
      omega
  unfold item
  simp only
  split
  · next value hvalue =>
      simp only [Action.breaks_pure, false_iff]
      rintro ⟨n, rfl, hindex, -⟩
      simp [Number.toInt?, (hmissing n).2 hindex] at hvalue
  · next hvalue =>
      split
      · next shown hshown =>
          simp only [Action.breaks_fail, false_iff]
          rintro ⟨n, rfl, -, hlong, -⟩
          have herror := Number.display_eq_error.2 ⟨.int hlong, rfl⟩
          rw [hshown] at herror
          cases herror
      · next other hother =>
          obtain ⟨hlong, rfl⟩ := Number.display_eq_error.1 hother
          rw [Action.breaks_stop]
          cases hlong with
          | @int n hlong =>
              simp only [Number.toInt?, Option.bind_some] at hvalue
              constructor
              · rintro rfl
                exact ⟨n, rfl, (hmissing n).1 hvalue, hlong, rfl⟩
              · rintro ⟨_, -, -, -, rfl⟩
                rfl

theorem mixed_iff {function : Builtin} (operation : Number → Number → Option Number)
    (hfunction : function = .add ∨ function = .subtract ∨ function = .multiply)
    (hoperation : ∀ m n, operation m n = none ↔ m.Mixed n) :
    (∃ m n, a = .number m ∧ b = .number n ∧ operation m n = none ∧ cause = .beyondDoubles) ↔
      function.Breaks [a, b] cause := by
  constructor
  · rintro ⟨m, n, rfl, rfl, hnone, rfl⟩
    exact .mixed hfunction ((hoperation m n).1 hnone)
  · intro h
    cases h with
    | mixed _ h => exact ⟨_, _, rfl, rfl, (hoperation _ _).2 h, rfl⟩
    | index _ _ => simp at hfunction

theorem Breaks.arity {function : Builtin} {arguments : List Value}
    (h : function.Breaks arguments cause) : function.arity = some arguments.length := by
  cases h with
  | mixed hfunction _ => rcases hfunction with rfl | rfl | rfl <;> rfl
  | shown _ => rfl
  | index _ _ => rfl

/-- Quotients and comparisons do not break down, nor do functions on arrays without an index. -/
theorem Breaks.mem {function : Builtin} {arguments : List Value}
    (h : function.Breaks arguments cause) :
    function ∈ [add, subtract, multiply, print, element] := by
  cases h with
  | mixed hfunction _ => rcases hfunction with rfl | rfl | rfl <;> simp
  | shown _ => simp
  | index _ _ => simp

theorem not_breaks_equal {limit : Nat}
    (hended : Ended (apply limit place equal [a, b] store).1) :
    ¬(apply limit place equal [a, b]).Breaks store cause := by
  intro h
  simp only [apply, Action.breaks_ofBreakdown_bind, Action.breaks_pure, and_false, exists_false,
    or_false] at h
  obtain rfl := Value.error_of_equal h
  simp only [apply, h] at hended
  exact not_ended_tooDeep hended

theorem shown_breaks_iff {limit : Nat} {value : Value} {second : String → Action Value}
    (hsecond : ∀ text, ¬(second text).Breaks store cause)
    (hended : Ended (Action.bind (Action.ofBreakdown (value.display limit false)) second store).1) :
    (Action.bind (Action.ofBreakdown (value.display limit false)) second).Breaks store cause ↔
      value.Long ∧ cause = .longInteger := by
  have hdeep : value.display limit false ≠ .error .tooDeep := by
    intro hdeep
    rw [hdeep] at hended
    exact not_ended_tooDeep hended
  rw [Action.breaks_ofBreakdown_bind, ← Value.display_eq_error_iff hdeep]
  refine or_iff_left ?_
  rintro ⟨text, -, h⟩
  exact hsecond text h

/-- Built-in functions that are not cut off break down exactly at what they are said to. -/
theorem breaks_iff {limit : Nat} {function : Builtin} {arguments : List Value}
    (hended : Ended (function.apply limit place arguments store).1) :
    (function.apply limit place arguments).Breaks store cause ↔
      function.Breaks arguments cause := by
  cases function.use arguments with
  | add a b =>
      exact sum_breaks_iff.trans
        (mixed_iff Number.add (.inl rfl) (Number.arithmetic_eq_none_iff _ _))
  | subtract a b =>
      exact (arithmetic_breaks_iff _ _).trans
        (mixed_iff Number.sub (.inr (.inl rfl)) (Number.arithmetic_eq_none_iff _ _))
  | multiply a b =>
      exact (arithmetic_breaks_iff _ _).trans
        (mixed_iff Number.mul (.inr (.inr rfl)) (Number.arithmetic_eq_none_iff _ _))
  | divide a b => exact iff_of_false not_breaks_quotient fun h => absurd h.mem (by decide)
  | equal a b => exact iff_of_false (not_breaks_equal hended) fun h => absurd h.mem (by decide)
  | less a b =>
      exact iff_of_false (not_breaks_comparison _ _ _) fun h => absurd h.mem (by decide)
  | greater a b =>
      exact iff_of_false (not_breaks_comparison _ _ _) fun h => absurd h.mem (by decide)
  | print value =>
      have hprint : ∀ text, ¬(Action.bind (Action.print text) fun _ =>
          Action.pure value).Breaks store cause := fun text => by
        simp [Action.Breaks, Action.bind, Action.print, Action.pure]
      refine (shown_breaks_iff hprint hended).trans ⟨?_, fun h => ?_⟩
      · rintro ⟨hlong, rfl⟩
        exact .shown hlong
      · cases h with
        | shown hlong => exact ⟨hlong, rfl⟩
  | array items =>
      exact iff_of_false (Action.breaks_pure _).1 fun h => absurd h.mem (by decide)
  | length value =>
      refine iff_of_false ?_ fun h => absurd h.mem (by decide)
      cases value <;> simp [apply]
  | element value index =>
      have hwrong : ∀ (mistake : Mistake), (∀ items n, ¬(value = .array items ∧ index = .int n)) →
          ((Action.fail mistake place : Action Value).Breaks store cause ↔
            element.Breaks [value, index] cause) := by
        intro mistake hother
        refine iff_of_false (Action.breaks_fail _ _).1 fun h => ?_
        cases h with
        | mixed hfunction _ => simp at hfunction
        | index _ _ => exact hother _ _ ⟨rfl, rfl⟩
      cases value with
      | array items =>
          cases index with
          | number n =>
              refine (item_breaks_iff items n).trans ⟨?_, fun h => ?_⟩
              · rintro ⟨n, rfl, hindex, hlong, rfl⟩
                exact .index hindex hlong
              · cases h with
                | index hindex hlong => exact ⟨_, rfl, hindex, hlong, rfl⟩
          | _ => exact hwrong _ (by rintro _ _ ⟨-, ⟨⟩⟩)
      | _ => exact hwrong _ (by rintro _ _ ⟨⟨⟩, -⟩)
  | wrong hexpected hlength =>
      rw [apply_misused hexpected hlength]
      refine iff_of_false (Action.breaks_fail _ _).1 fun h => hlength ?_
      exact Option.some.inj (h.arity.symm.trans hexpected)

end Builtin

/-! ### Applications -/

/-- What the application of a value to others breaks down at by itself, limits apart.  Whatever
    happens in the body of a closure happens in its evaluation. -/
inductive Value.Breaks : Value → List Value → Breakdown → Prop where
  | builtin {function : Builtin} {home : ScopeId} {arguments : List Value} {cause : Breakdown}
      (h : function.Breaks arguments cause) : Value.Breaks (.builtin function home) arguments cause
  | notFunction {callee : Value} {arguments : List Value} (hkind : callee.kind ≠ .function)
      (h : callee.Long) : Value.Breaks callee arguments .longInteger

theorem Value.Breaks.not_closure {callee : Value} {arguments : List Value} {cause : Breakdown}
    (h : callee.Breaks arguments cause) :
    ∀ id parameters body scope, callee ≠ .closure id parameters body scope := by
  rintro id parameters body scope rfl
  cases h with
  | notFunction hkind _ => exact hkind rfl

theorem Value.Breaks.cause {callee : Value} {arguments : List Value} {cause : Breakdown}
    (h : callee.Breaks arguments cause) : cause = .beyondDoubles ∨ cause = .longInteger := by
  cases h with
  | builtin h =>
      cases h with
      | mixed _ _ => exact .inl rfl
      | shown _ => exact .inr rfl
      | index _ _ => exact .inr rfl
  | notFunction _ _ => exact .inr rfl

theorem Evaluator.breaks_iff {limit : Nat} {evaluate : Evaluator} {place : Option Span}
    {callee : Value} {arguments : List Value} {store : Store} {cause : Breakdown}
    (hclosure : ∀ id parameters body scope, callee ≠ .closure id parameters body scope)
    (hended : Ended (Evaluator.apply limit evaluate place callee arguments store).1) :
    (Evaluator.apply limit evaluate place callee arguments).Breaks store cause ↔
      callee.Breaks arguments cause := by
  have hshown : ∀ value : Value, value.kind ≠ .function →
      (value.Long ∧ cause = .longInteger ↔ value.Breaks arguments cause) := by
    intro value hkind
    constructor
    · rintro ⟨hlong, rfl⟩
      exact .notFunction hkind hlong
    · intro h
      cases h with
      | builtin _ => exact absurd rfl hkind
      | notFunction _ hlong => exact ⟨hlong, rfl⟩
  cases callee with
  | closure id parameters body scope => exact absurd rfl (hclosure id parameters body scope)
  | builtin function home =>
      refine (Builtin.breaks_iff hended).trans ⟨.builtin, fun h => ?_⟩
      cases h with
      | builtin h => exact h
      | notFunction hkind _ => exact absurd rfl hkind
  | _ =>
      refine (Builtin.shown_breaks_iff (fun text => ?_) hended).trans (hshown _ nofun)
      exact (Action.breaks_fail _ _).1

end CallLang
