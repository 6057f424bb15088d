/-
  CallLang/Proofs/Doubles.lean
  ============================
  **The range of doubles.**

  The largest double is 2¹⁰²⁴ - 2⁹⁷¹, and an integer lies beyond the range if it
  is nearer to 2¹⁰²⁴; half way between the two it lies beyond as well, for the even
  neighbour is the one out of range.
-/
import CallLang.Double.Basic
import Mathlib

namespace CallLang

namespace Double

theorem le_nearestEven (numerator denominator : Nat) :
    numerator / denominator ≤ nearestEven numerator denominator := by
  unfold nearestEven
  dsimp only
  split
  · omega
  · split
    · omega
    · split <;> omega

/-- An odd quotient is rounded up from the half on. -/
theorem nearestEven_of_odd {numerator denominator : Nat} (hodd : numerator / denominator % 2 = 1) :
    nearestEven numerator denominator =
      if denominator ≤ 2 * (numerator % denominator) then numerator / denominator + 1
      else numerator / denominator := by
  unfold nearestEven
  dsimp only
  by_cases hhalf : denominator ≤ 2 * (numerator % denominator)
  · rw [if_neg (Nat.not_lt.2 hhalf), if_pos hhalf]
    split
    · rfl
    · rw [if_neg (by omega)]
  · rw [if_pos (Nat.lt_of_not_le hhalf), if_neg hhalf]

theorem one_eq : one = 2 ^ 1074 := by
  unfold one
  generalize 1074 = exponent
  exact Nat.pow_eq

theorem rangeEnd_eq : rangeEnd = 2 ^ 2098 := by
  unfold rangeEnd
  generalize 2098 = exponent
  exact Nat.pow_eq

theorem one_pos : 0 < one := by
  rw [one_eq]
  exact pow_pos (by decide) 1074

/-! ### Where rounding leaves the range -/

section

variable {numerator denominator k : Nat}

theorem significand_eq (numerator denominator : Nat) :
    significand numerator denominator =
      nearestEven numerator (denominator * 2 ^ lastBit (numerator / denominator)) := by
  rw [significand, Nat.pow_eq]

theorem significand_mul_le_of_lt (h : numerator / denominator < 2 ^ 53 * 2 ^ k) :
    significand numerator denominator * 2 ^ lastBit (numerator / denominator) ≤
      2 ^ 53 * 2 ^ k := by
  have hbit : lastBit (numerator / denominator) ≤ k := by
    by_cases hzero : numerator / denominator = 0
    · simp [lastBit, hzero]
    · rw [← pow_add, ← Nat.log2_lt hzero] at h
      unfold lastBit
      omega
  exact Nat.mul_le_mul (significand_le numerator denominator)
    (Nat.pow_le_pow_right (by decide) hbit)

theorem log2_bounds {units : Nat} (hlarge : 2 ^ 53 * 2 ^ k ≤ units) :
    units ≠ 0 ∧ k + 53 ≤ units.log2 := by
  have hzero : units ≠ 0 := by
    rintro rfl
    have hpositive := Nat.two_pow_pos k
    omega
  refine ⟨hzero, (Nat.le_log2 hzero).2 ?_⟩
  rwa [pow_add, Nat.mul_comm]

/-- Where a step is `2 * 2 ^ k`, rounding reaches the next power of two from half a step before
    it on: only the last quotient can be rounded up to it. -/
theorem significand_mul_lt_iff_of_step (hdenominator : 0 < denominator)
    (hlarge : 2 ^ 53 * 2 ^ k ≤ numerator / denominator)
    (hrange : numerator / denominator < 2 ^ 54 * 2 ^ k) :
    significand numerator denominator * 2 ^ lastBit (numerator / denominator) < 2 ^ 54 * 2 ^ k ↔
      numerator < (2 ^ 54 - 1) * (denominator * 2 ^ k) := by
  have hpositive := Nat.two_pow_pos k
  obtain ⟨hzero, hlog⟩ := log2_bounds hlarge
  have hlog' := (Nat.log2_lt hzero).2 (pow_add 2 54 k ▸ hrange)
  have hbit : lastBit (numerator / denominator) = k + 1 := by
    unfold lastBit
    omega
  have hwhole : numerator < 2 ^ 54 * (denominator * 2 ^ k) := by
    rw [Nat.div_lt_iff_lt_mul hdenominator] at hrange
    rwa [Nat.mul_comm denominator, ← Nat.mul_assoc]
  rw [significand_eq, hbit, pow_succ', Nat.mul_left_comm denominator]
  have hunit : 0 < denominator * 2 ^ k := Nat.mul_pos hdenominator hpositive
  generalize denominator * 2 ^ k = unit at *
  generalize 2 ^ k = step at *
  have hdiv := Nat.div_add_mod numerator (2 * unit)
  have hmod := Nat.mod_lt numerator (Nat.mul_pos (by decide : 0 < 2) hunit)
  have hquotient : numerator / (2 * unit) < 2 ^ 53 := by
    rw [Nat.div_lt_iff_lt_mul (Nat.mul_pos (by decide) hunit)]
    omega
  by_cases hlast : numerator / (2 * unit) = 2 ^ 53 - 1
  · rw [nearestEven_of_odd (by omega), hlast]
    rw [hlast] at hdiv
    split <;> omega
  · have hnear := nearestEven_le numerator (2 * unit)
    have hproduct : nearestEven numerator (2 * unit) * (2 * step) ≤ (2 ^ 53 - 1) * (2 * step) :=
      Nat.mul_le_mul_right _ (by omega)
    have hunits : 2 * unit * (numerator / (2 * unit)) ≤ 2 * unit * (2 ^ 53 - 2) :=
      Nat.mul_le_mul_left _ (by omega)
    omega

/-- A significand with all of its bits is not rounded below its power of two. -/
theorem le_significand_mul (hlarge : 2 ^ 54 * 2 ^ k ≤ numerator / denominator) :
    2 ^ 54 * 2 ^ k ≤
      significand numerator denominator * 2 ^ lastBit (numerator / denominator) := by
  have hlower : 2 ^ 53 * 2 ^ k ≤ numerator / denominator := by omega
  obtain ⟨hzero, hlog⟩ := log2_bounds hlower
  rw [significand_eq]
  have hnear := le_nearestEven numerator (denominator * 2 ^ lastBit (numerator / denominator))
  rw [← Nat.div_div_eq_div_mul] at hnear
  generalize numerator / denominator = units at *
  have hbits : 2 ^ units.log2 = 2 ^ 52 * 2 ^ lastBit units := by
    rw [← pow_add]
    congr 1
    unfold lastBit
    omega
  have hquotient : 2 ^ 52 ≤ units / 2 ^ lastBit units := by
    rw [Nat.le_div_iff_mul_le (Nat.two_pow_pos _), ← hbits]
    exact Nat.log2_self_le hzero
  have hend : 2 ^ 54 * 2 ^ k ≤ 2 ^ units.log2 := by
    rw [← pow_add]
    exact Nat.pow_le_pow_right (by decide) ((Nat.le_log2 hzero).2 (pow_add 2 54 k ▸ hlarge))
  calc 2 ^ 54 * 2 ^ k ≤ 2 ^ units.log2 := hend
    _ = 2 ^ 52 * 2 ^ lastBit units := hbits
    _ ≤ _ := Nat.mul_le_mul_right _ (Nat.le_trans hquotient hnear)

/-- Below a power of two the rounded quotient stays below it, up to half a step from it. -/
theorem significand_mul_lt_iff (hdenominator : 0 < denominator) (numerator k : Nat) :
    significand numerator denominator * 2 ^ lastBit (numerator / denominator) < 2 ^ 54 * 2 ^ k ↔
      numerator < (2 ^ 54 - 1) * (denominator * 2 ^ k) := by
  have hpositive := Nat.two_pow_pos k
  have hunit : 0 < denominator * 2 ^ k := Nat.mul_pos hdenominator hpositive
  have hscale : ∀ m, m * 2 ^ k * denominator = m * (denominator * 2 ^ k) := fun m => by
    rw [Nat.mul_assoc, Nat.mul_comm (2 ^ k)]
  rcases Nat.lt_or_ge (numerator / denominator) (2 ^ 53 * 2 ^ k) with hsmall | hlarge
  · have hproduct := significand_mul_le_of_lt hsmall
    rw [Nat.div_lt_iff_lt_mul hdenominator, hscale] at hsmall
    omega
  · rcases Nat.lt_or_ge (numerator / denominator) (2 ^ 54 * 2 ^ k) with hrange | hbeyond
    · exact significand_mul_lt_iff_of_step hdenominator hlarge hrange
    · have hproduct := le_significand_mul hbeyond
      rw [ge_iff_le, Nat.le_div_iff_mul_le hdenominator, hscale] at hbeyond
      omega

end

/-- Half way from the largest double to the end of the range, in units.  The exponents are
    variables: powers this large are not to be computed. -/
theorem halfway_eq (unit k : Nat) {i j : Nat} (hi : k + 54 = i + unit) (hj : k = j + unit) :
    (2 ^ 54 - 1) * 2 ^ k = (2 ^ i - 2 ^ j) * 2 ^ unit := by
  rw [Nat.sub_mul, Nat.sub_mul, ← pow_add, ← pow_add, ← pow_add, Nat.one_mul, Nat.add_comm 54 k,
    hi, ← hj]

theorem withinRange?_eq_none {x : Double} : withinRange? x = none ↔ ∃ side, x = .infinite side := by
  cases x <;> simp [withinRange?]

/-- A number is rounded to infinity if it does not lie before half way between the largest double
    and the end of the range. -/
theorem round_eq_infinite_iff (negative : Bool) (numerator : Nat) {denominator : Nat}
    (hdenominator : 0 < denominator) :
    (∃ side, round negative numerator denominator = .infinite side) ↔
      (2 ^ 1024 - 2 ^ 970) * one * denominator ≤ numerator := by
  have hend : ∀ e k, e = k + 54 → 2 ^ e = 2 ^ 54 * 2 ^ k := by
    rintro e k rfl
    rw [pow_add, Nat.mul_comm]
  have hhalf : (2 ^ 54 - 1) * (denominator * 2 ^ 2044) = (2 ^ 1024 - 2 ^ 970) * one * denominator := by
    rw [Nat.mul_left_comm, Nat.mul_comm denominator, one_eq]
    exact congrArg (· * denominator) (halfway_eq 1074 2044 rfl rfl)
  rw [← hhalf, ← Nat.not_lt, ← significand_mul_lt_iff hdenominator, ← hend 2098 2044 rfl,
    ← rangeEnd_eq, ← Nat.pow_eq]
  unfold round
  dsimp only
  split
  · next h => simp only [reduceCtorEq, exists_false, h, not_true_eq_false]
  · next h => simp only [infinite.injEq, exists_eq', h, not_false_eq_true]

/-- An integer lies beyond the range of doubles from half way between the largest double and
    the end of the range on. -/
theorem ofInt?_eq_none_iff (n : Int) : ofInt? n = none ↔ 2 ^ 1024 - 2 ^ 970 ≤ n.natAbs := by
  rw [ofInt?, withinRange?_eq_none, round_eq_infinite_iff _ _ Nat.one_pos, Nat.mul_one]
  exact Nat.mul_le_mul_right_iff one_pos

theorem natAbs_signed (negative : Bool) (units : Nat) : (signed negative units).natAbs = units := by
  cases negative <;> simp [signed]

/-- The integer that a double is lies below the first power of two beyond the range. -/
theorem natAbs_lt_of_toInt? {x : Double} {n : Int} (h : x.toInt? = some n) :
    n.natAbs < 2 ^ 1024 := by
  cases x with
  | finite negative units hunits =>
      have hpow : ∀ k m : Nat, 2 ^ (k + m) = 2 ^ k * 2 ^ m := pow_add 2
      have hend : ∀ e, e = 1024 + 1074 → 2 ^ e = 2 ^ 1024 * one := by
        intro e he
        rw [one_eq, he, hpow]
      simp only [toInt?] at h
      split at h
      · obtain rfl := Option.some.inj h
        rw [natAbs_signed, Nat.div_lt_iff_lt_mul one_pos]
        have hrange : rangeEnd = 2 ^ 1024 * one := by rw [rangeEnd_eq, hend 2098 rfl]
        rw [← hrange]
        exact hunits.1
      · cases h
  | _ => cases h

end Double

end CallLang
