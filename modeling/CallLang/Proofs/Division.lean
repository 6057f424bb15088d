/-
  CallLang/Proofs/Division.lean
  =============================
  **What becomes of a quotient.**

  A quotient of two finite numbers is an integer if the operands are integers and the
  division leaves no rest, and else the exact quotient rounded.  Beyond the range of
  doubles two integers are refused, and so is an integer that cannot be made a double to
  meet one; but two doubles, each within the range, divide to an infinity.
-/
import CallLang.Proofs.Breakdowns
import CallLang.Proofs.Rounding

namespace CallLang

namespace Number

/-- The exact value of the double that a number is made when it meets a double. -/
def doubleValue? (n : Number) : Option NumberLine :=
  n.toDouble?.bind Double.value?

variable {a b : Number} {m n : Int} {p q : ℚ}

theorem mixed_iff :
    a.Mixed b ↔ (∀ m n, a = .int m → b ≠ .int n) ∧ (a.toDouble? = none ∨ b.toDouble? = none) := by
  rw [← arithmetic_eq_none_iff (· + ·) Double.add, arithmetic_eq_none]

/-- A finite number that can be made a double is made a finite one, and none but zero is made
    zero. -/
theorem exists_doubleValue? {x : Double} (ha : a.value? = some (p : NumberLine))
    (hx : a.toDouble? = some x) :
    ∃ p' : ℚ, x.value? = some (p' : NumberLine) ∧ (p ≠ 0 → p' ≠ 0) := by
  cases a with
  | double y =>
      obtain rfl := Option.some.inj hx
      exact ⟨p, ha, id⟩
  | int n =>
      obtain rfl := WithBotTop.coe_injective (Option.some.inj ha)
      obtain ⟨y, hy, hof⟩ := Double.exists_ofInt?_eq n
      rw [toDouble?_int, hof] at hx
      have hrange : ¬Double.Beyond n := fun hbeyond => by
        rw [hy.withinRange?_beyond hbeyond] at hx
        cases hx
      obtain rfl := Option.some.inj ((hy.withinRange?_eq hrange).symm.trans hx)
      obtain ⟨p', hp', -⟩ := hy.nearest hrange
      exact ⟨p', hp', fun hn => (hy.nearest hrange).ne_zero (Int.cast_ne_zero.1 hn) hp'⟩

/-! ### The quotient of two numbers -/

theorem equal_zero (hb : b.value? = some (q : NumberLine)) : b.equal (.int 0) = decide (q = 0) := by
  have hzero : (int 0).value? = some ((0 : ℚ) : NumberLine) := by rw [value?, Int.cast_zero]
  rw [equal_eq hb hzero, decide_eq_decide, WithBotTop.coe_injective.eq_iff]

theorem int_equal_zero (hn : n ≠ 0) : (int n).equal (.int 0) = false := by
  rw [equal_zero rfl, decide_eq_false (Int.cast_ne_zero.2 hn)]

theorem div_by_zero (a : Number) (hb : b.value? = some ((0 : ℚ) : NumberLine)) :
    a.div b = .error .byZero := by
  unfold div
  rw [equal_zero hb, decide_eq_true rfl, if_pos rfl]

theorem div_exact (a : Int) (hn : n ≠ 0) : (int (a * n)).div (int n) = .ok (.int a) := by
  rw [div, int_equal_zero hn, if_neg Bool.false_ne_true]
  dsimp only
  rw [if_pos (Int.dvd_mul_left a n), Int.mul_ediv_cancel a hn]

/-- A quotient of integers with a rest is rounded, or refused beyond the range. -/
theorem div_inexact (hn : n ≠ 0) (hrest : ¬n ∣ m) :
    (¬Double.Beyond (m / n) →
      ∃ x : Double, x.IsNearest (m / n) ∧ (int m).div (int n) = .ok (.double x)) ∧
      (Double.Beyond (m / n) → (int m).div (int n) = .error .outOfRange) := by
  obtain ⟨x, hx, hof⟩ := Double.exists_ofQuotient?_eq (m := m) hn
  rw [div, int_equal_zero hn, if_neg Bool.false_ne_true]
  dsimp only
  rw [if_neg hrest, hof]
  constructor
  · intro hrange
    rw [hx.withinRange?_eq hrange]
    exact ⟨x, hx.nearest hrange, rfl⟩
  · intro hbeyond
    rw [hx.withinRange?_beyond hbeyond]
    rfl

theorem div_doubles (hdouble : ∀ m n, a = .int m → b ≠ .int n)
    (hb : b.value? = some (q : NumberLine)) (hq : q ≠ 0) :
    a.div b = match a.toDouble?, b.toDouble? with
      | some x, some y => .ok (.double (x.div y))
      | _, _ => .error .outOfRange := by
  unfold div
  rw [equal_zero hb, decide_eq_false hq, if_neg Bool.false_ne_true]
  cases a with
  | int m =>
      cases b with
      | int n => exact absurd rfl (hdouble m n rfl)
      | double y => cases (int m).toDouble? <;> rfl
  | double x => cases b.toDouble? <;> rfl

/-- An integer beyond the range of doubles is not divided by a double, nor a double by it. -/
theorem div_mixed (hmixed : a.Mixed b) (hb : b.value? = some (q : NumberLine)) (hq : q ≠ 0) :
    a.div b = .error .outOfRange := by
  obtain ⟨hdouble, hnone⟩ := mixed_iff.1 hmixed
  rw [div_doubles hdouble hb hq]
  rcases hnone with hnone | hnone
  · rw [hnone]
  · rw [hnone]
    cases a.toDouble? <;> rfl

/-- With a double among the operands what they are as doubles is divided and rounded. -/
theorem div_rounded (hdouble : ∀ m n, a = .int m → b ≠ .int n) (hmixed : ¬a.Mixed b)
    (ha : a.value? = some (p : NumberLine)) (hb : b.value? = some (q : NumberLine)) (hq : q ≠ 0) :
    ∃ p' q' : ℚ, a.doubleValue? = some (p' : NumberLine) ∧
      b.doubleValue? = some (q' : NumberLine) ∧ q' ≠ 0 ∧
      ∃ x : Double, x.Rounds (p' / q') ∧ a.div b = .ok (.double x) := by
  obtain ⟨hx, hy⟩ := not_or.1 fun hnone => hmixed (mixed_iff.2 ⟨hdouble, hnone⟩)
  obtain ⟨x, hx⟩ := Option.ne_none_iff_exists'.1 hx
  obtain ⟨y, hy⟩ := Option.ne_none_iff_exists'.1 hy
  obtain ⟨p', hp', -⟩ := exists_doubleValue? ha hx
  obtain ⟨q', hq', hne⟩ := exists_doubleValue? hb hy
  refine ⟨p', q', ?_, ?_, hne hq, x.div y, Double.div_rounds hp' hq' (hne hq), ?_⟩
  · rw [doubleValue?, hx, Option.bind_some, hp']
  · rw [doubleValue?, hy, Option.bind_some, hq']
  · rw [div_doubles hdouble hb hq, hx, hy]

end Number

/-! ### Divisions -/

namespace Builtin

variable {limit : Nat} {place : Option Span} {store : Store} {a b c : Number}

theorem apply_divide (h : a.div b = .ok c) :
    divide.apply limit place [.number a, .number b] store = (.ok (.number c), store) := by
  simp only [apply, quotient, h]
  rfl

theorem apply_divide_byZero (h : a.div b = .error .byZero) :
    divide.apply limit place [.number a, .number b] store =
      (.error (.mistake .divisionByZero place), store) := by
  simp only [apply, quotient, h]
  rfl

theorem apply_divide_outOfRange (h : a.div b = .error .outOfRange) :
    divide.apply limit place [.number a, .number b] store =
      (.error (.mistake .quotientRange place), store) := by
  simp only [apply, quotient, h]
  rfl

/-- What becomes of the quotient of two finite numbers.  Division by zero is refused.  Of two
    integers the quotient is an integer, if it is one, else the nearest double, and beyond the range
    of doubles it is refused.  With a double among the operands an integer beyond the range is
    refused as well; the quotient of what the operands are as doubles is rounded, and it is
    infinite if it lies beyond the range.  It is never the number that is none, the store stays as it
    is, and nothing breaks down. -/
theorem quotient_outcomes {p q : ℚ} (ha : a.value? = some (p : NumberLine))
    (hb : b.value? = some (q : NumberLine)) (limit : Nat) (place : Option Span) (store : Store) :
    let outcome := divide.apply limit place [.number a, .number b] store
    (q = 0 → outcome = (.error (.mistake .divisionByZero place), store)) ∧
      (q ≠ 0 →
        (∀ m n, a = .int m → b = .int n →
          (∀ k, k * n = m → outcome = (.ok (.int k), store)) ∧
            (¬n ∣ m → ¬Double.Beyond (p / q) →
              ∃ x : Double, x.IsNearest (p / q) ∧ outcome = (.ok (.double x), store)) ∧
            (¬n ∣ m → Double.Beyond (p / q) →
              outcome = (.error (.mistake .quotientRange place), store))) ∧
        (a.Mixed b → outcome = (.error (.mistake .quotientRange place), store)) ∧
        ((∀ m n, a = .int m → b ≠ .int n) → ¬a.Mixed b →
          ∃ p' q' : ℚ, a.doubleValue? = some (p' : NumberLine) ∧
            b.doubleValue? = some (q' : NumberLine) ∧ q' ≠ 0 ∧
            (¬Double.Beyond (p' / q') →
              ∃ x : Double, x.IsNearest (p' / q') ∧ outcome = (.ok (.double x), store)) ∧
            (Double.Beyond (p' / q') →
              outcome = (.ok (.double (.infinite (p' / q' < 0))), store)))) := by
  refine ⟨?_, fun hq => ⟨?_, fun hmixed => ?_, fun hdouble hmixed => ?_⟩⟩
  · rintro rfl
    exact apply_divide_byZero (Number.div_by_zero a hb)
  · rintro m n rfl rfl
    obtain rfl := WithBotTop.coe_injective (Option.some.inj ha)
    obtain rfl := WithBotTop.coe_injective (Option.some.inj hb)
    have hn : n ≠ 0 := Int.cast_ne_zero.1 hq
    refine ⟨?_, fun hrest hrange => ?_, fun hrest hbeyond => ?_⟩
    · rintro k rfl
      exact apply_divide (Number.div_exact k hn)
    · obtain ⟨x, hx, hdiv⟩ := (Number.div_inexact hn hrest).1 hrange
      exact ⟨x, hx, apply_divide hdiv⟩
    · exact apply_divide_outOfRange ((Number.div_inexact hn hrest).2 hbeyond)
  · exact apply_divide_outOfRange (Number.div_mixed hmixed hb hq)
  · obtain ⟨p', q', hp', hq', hne, x, hx, hdiv⟩ := Number.div_rounded hdouble hmixed ha hb hq
    refine ⟨p', q', hp', hq', hne, fun hrange => ?_, fun hbeyond => ?_⟩
    · exact ⟨x, hx.nearest hrange, apply_divide hdiv⟩
    · exact hx.infinite hbeyond ▸ apply_divide hdiv

/-- One divided by the least positive double is infinite. -/
theorem quotient_outcomes_infinite :
    let least : Double := .finite false 1 ⟨by decide +kernel, 1, 0, by decide, rfl⟩
    (Number.int 1).value? = some ((1 : ℚ) : NumberLine) ∧
      (Number.double least).value? = some (Double.ofUnits 1 : NumberLine) ∧
      ∀ limit place store, divide.apply limit place [.int 1, .double least] store =
        (.ok (.double (.infinite false)), store) := by
  intro least
  have hone : (Number.int 1).value? = some ((1 : ℚ) : NumberLine) := by
    rw [Number.value?, Int.cast_one]
  have hleast : (Number.double least).value? = some (Double.ofUnits 1 : NumberLine) := rfl
  refine ⟨hone, hleast, fun limit place store => ?_⟩
  have hdouble : (Number.int 1).toDouble? = some (.finite false Double.one
      Double.representable_one) := by decide +kernel
  have hne : Double.ofUnits 1 ≠ 0 := by
    rw [Double.ofUnits, Int.cast_one]
    exact one_div_ne_zero Double.cast_one_pos.ne'
  have hmixed : ¬(Number.int 1).Mixed (.double least) := by
    intro h
    rcases (Number.mixed_iff.1 h).2 with hnone | hnone
    · rw [hdouble] at hnone
      cases hnone
    · cases hnone
  have hnumbers : ∀ m n, Number.int 1 = .int m → Number.double least ≠ .int n := by
    intro m n _ hequal
    cases hequal
  obtain ⟨p, q, hp, hq, -, -, hinfinite⟩ :=
    ((quotient_outcomes hone hleast limit place store).2 hne).2.2 hnumbers hmixed
  rw [Number.doubleValue?, hdouble] at hp
  obtain rfl := WithBotTop.coe_injective (Option.some.inj hp)
  obtain rfl := WithBotTop.coe_injective (Option.some.inj hq)
  have hsigned : ∀ units : Nat, Double.signed false units = units := fun _ => rfl
  have hratio : Double.ofUnits (Double.signed false Double.one) /
      Double.ofUnits (Double.signed false 1) = Double.one := by
    rw [Double.ofUnits_div_ofUnits, hsigned, hsigned, Int.cast_natCast, Int.cast_natCast,
      Nat.cast_one, div_one]
  have hbeyond : Double.Beyond Double.one := by
    have hbound : ∀ i j k : Nat, i ≤ k → 2 ^ i - 2 ^ j ≤ 2 ^ k := fun i j k h =>
      (Nat.sub_le _ _).trans (Nat.pow_le_pow_right (by decide) h)
    rw [Double.Beyond, abs_of_pos Double.cast_one_pos, Nat.cast_le, Double.one_eq]
    exact hbound 1024 970 1074 (by decide)
  rw [hratio, decide_eq_false Double.cast_one_pos.not_gt] at hinfinite
  exact hinfinite hbeyond

end Builtin

end CallLang
