/-
  CallLang/Proofs/Rounding.lean
  =============================
  **Rounding to the nearest double.**

  A quotient is rounded to a double such that no other is nearer, unless it lies beyond
  the range; then it is rounded to infinity.  Below the significand that a quotient is
  rounded to, doubles are finer than its gap, but no quotient with this gap lies there.
-/
import CallLang.Proofs.NumberLine
import CallLang.Proofs.Shortest

namespace CallLang

namespace Double

/-- Whether a number lies beyond the range of doubles: the largest double is not nearer to it than
    the end of the range. -/
def Beyond (value : ℚ) : Prop :=
  ((2 ^ 1024 - 2 ^ 970 : Nat) : ℚ) ≤ |value|

/-- Whether a double is finite and no finite double is nearer to a number. -/
def IsNearest (x : Double) (value : ℚ) : Prop :=
  ∃ p : ℚ, x.value? = some (p : NumberLine) ∧
    ∀ (y : Double) (q : ℚ), y.value? = some (q : NumberLine) → |p - value| ≤ |q - value|

/-- Whether a double is what a number is rounded to: one of the nearest, or beyond the range the
    infinity on its side of zero. -/
structure Rounds (x : Double) (value : ℚ) : Prop where
  nearest : ¬Beyond value → x.IsNearest value
  infinite : Beyond value → x = .infinite (value < 0)

/-! ### Units -/

variable {numerator denominator : Nat}

/-- The nearest integer is as far from a quotient as an error that keeps all integers away. -/
theorem exists_error_nearestEven (numerator : Nat) (hdenominator : 0 < denominator) :
    ∃ error, numerator ≤ denominator * nearestEven numerator denominator + error ∧
      denominator * nearestEven numerator denominator ≤ numerator + error ∧
      ∀ m, denominator * m + error ≤ numerator ∨ numerator + error ≤ denominator * m := by
  have hdiv := Nat.div_add_mod numerator denominator
  have hmod := Nat.mod_lt numerator hdenominator
  have hstep : denominator * (numerator / denominator + 1) =
      denominator * (numerator / denominator) + denominator := Nat.mul_succ _ _
  -- every integer lies at or below the whole part, or a whole denominator above it
  have haway : ∀ m, denominator * m ≤ denominator * (numerator / denominator) ∨
      denominator * (numerator / denominator) + denominator ≤ denominator * m := by
    intro m
    rcases Nat.lt_or_ge (numerator / denominator) m with hm | hm
    · exact .inr (hstep ▸ Nat.mul_le_mul_left denominator hm)
    · exact .inl (Nat.mul_le_mul_left denominator hm)
  have hcases : (nearestEven numerator denominator = numerator / denominator ∧
        2 * (numerator % denominator) ≤ denominator) ∨
      (nearestEven numerator denominator = numerator / denominator + 1 ∧
        denominator ≤ 2 * (numerator % denominator)) := by
    unfold nearestEven
    dsimp only
    split
    · exact .inl ⟨rfl, by omega⟩
    · split
      · exact .inr ⟨rfl, by omega⟩
      · split
        · exact .inl ⟨rfl, by omega⟩
        · exact .inr ⟨rfl, by omega⟩
  rcases hcases with ⟨hnear, hhalf⟩ | ⟨hnear, hhalf⟩
  · refine ⟨numerator % denominator, ?_, ?_, fun m => ?_⟩
    · rw [hnear]
      omega
    · rw [hnear]
      omega
    · have hm := haway m
      omega
  · refine ⟨denominator - numerator % denominator, ?_, ?_, fun m => ?_⟩
    · rw [hnear, hstep]
      omega
    · rw [hnear, hstep]
      omega
    · have hm := haway m
      omega

/-- The units of a double that are no multiple of a gap lie below all significands of that gap. -/
theorem Representable.dvd_or_lt {units : Nat} (h : Representable units) (gap : Nat) :
    2 ^ gap ∣ units ∨ gap ≠ 0 ∧ units < 2 ^ 52 * 2 ^ gap := by
  by_cases hgap : gap ≤ lastBit units
  · exact .inl (dvd_trans (pow_dvd_pow 2 hgap) h.gap_dvd)
  · refine .inr ⟨by omega, ?_⟩
    have hunits := lt_mul_gap units
    have hpow : 2 ^ (lastBit units + 1) ≤ 2 ^ gap := Nat.pow_le_pow_right (by decide) (by omega)
    rw [pow_succ] at hpow
    omega

/-- No double is nearer to a quotient than its significand. -/
theorem exists_error_significand (numerator : Nat) (hdenominator : 0 < denominator) :
    let units := significand numerator denominator * 2 ^ lastBit (numerator / denominator)
    ∃ error, numerator ≤ denominator * units + error ∧ denominator * units ≤ numerator + error ∧
      ∀ other, Representable other →
        denominator * other + error ≤ numerator ∨ numerator + error ≤ denominator * other := by
  intro units
  have hgap : 0 < denominator * 2 ^ lastBit (numerator / denominator) :=
    Nat.mul_pos hdenominator (Nat.two_pow_pos _)
  obtain ⟨error, hbelow, habove, haway⟩ := exists_error_nearestEven numerator hgap
  have hunits : denominator * 2 ^ lastBit (numerator / denominator) *
      nearestEven numerator (denominator * 2 ^ lastBit (numerator / denominator)) =
        denominator * units := by
    rw [← significand_eq, Nat.mul_assoc, Nat.mul_comm (2 ^ _)]
  rw [hunits] at hbelow habove
  have hmultiple : ∀ m, denominator * 2 ^ lastBit (numerator / denominator) * m =
      denominator * (2 ^ lastBit (numerator / denominator) * m) := Nat.mul_assoc _ _
  refine ⟨error, hbelow, habove, fun other hother => ?_⟩
  rcases hother.dvd_or_lt (lastBit (numerator / denominator)) with ⟨m, rfl⟩ | ⟨hzero, hlt⟩
  · rw [← hmultiple]
    exact haway m
  · -- the power of two in between is a multiple of the gap and still not above the quotient
    have hpower := (Nat.le_div_iff_mul_le hdenominator).1 (mul_gap_le hzero)
    have hother := Nat.mul_le_mul_left denominator (Nat.le_of_lt hlt)
    have hcase := haway (2 ^ 52)
    rw [hmultiple, Nat.mul_comm _ (2 ^ 52)] at hcase
    rw [Nat.mul_comm] at hpower
    omega

/-! ### Values -/

theorem ofUnits_sub (a b : Int) (hdenominator : 0 < denominator) :
    ofUnits a - ofUnits b / denominator =
      ((a * denominator - b : Int) : ℚ) / (one * denominator) := by
  have hone := cast_one_pos
  have hpos : (0 : ℚ) < denominator := by exact_mod_cast hdenominator
  unfold ofUnits
  push_cast
  field_simp

theorem Beyond.ne_zero {value : ℚ} (h : Beyond value) : value ≠ 0 := by
  rintro rfl
  have hbound : ∀ i j : Nat, j < i → 0 < 2 ^ i - 2 ^ j := fun i j h =>
    Nat.sub_pos_of_lt (Nat.pow_lt_pow_right (by decide) h)
  rw [Beyond, abs_zero, ← not_lt, Nat.cast_pos] at h
  exact h (hbound 1024 970 (by decide))

theorem ofUnits_signed_zero (negative : Bool) : ofUnits (signed negative 0) = 0 := by
  have hzero : signed negative 0 = 0 := by cases negative <;> rfl
  rw [hzero, ofUnits, Int.cast_zero, zero_div]

theorem beyond_iff (negative : Bool) (hdenominator : 0 < denominator) :
    Beyond (ofUnits (signed negative numerator) / denominator) ↔
      (2 ^ 1024 - 2 ^ 970) * one * denominator ≤ numerator := by
  have hpos : (0 : ℚ) < denominator := by exact_mod_cast hdenominator
  have habs : |(signed negative numerator : ℚ)| = numerator := by
    cases negative <;> simp [signed]
  unfold Beyond ofUnits
  generalize 2 ^ 1024 - 2 ^ 970 = bound
  rw [abs_div, abs_div, habs, abs_of_pos cast_one_pos, abs_of_pos hpos, le_div_iff₀ hpos,
    le_div_iff₀ cast_one_pos]
  rw [mul_right_comm]
  exact_mod_cast Iff.rfl

/-- The side of a quotient is that of its numerator, unless it is zero. -/
theorem ofUnits_div_neg_iff {negative : Bool} (hdenominator : 0 < denominator)
    (h : ofUnits (signed negative numerator) / denominator ≠ 0) :
    ofUnits (signed negative numerator) / denominator < 0 ↔ negative = true := by
  have hpos : (0 : ℚ) < denominator := by exact_mod_cast hdenominator
  have hnumerator : 0 < numerator := by
    refine Nat.pos_of_ne_zero ?_
    rintro rfl
    rw [ofUnits_signed_zero, zero_div] at h
    exact h rfl
  rw [div_lt_iff₀ hpos, zero_mul, ofUnits, div_lt_iff₀ cast_one_pos, zero_mul]
  cases negative <;> simp [signed, hnumerator]

theorem side_of_round {negative side : Bool}
    (h : round negative numerator denominator = .infinite side) : side = negative := by
  unfold round at h
  dsimp only at h
  split at h
  · cases h
  · exact (infinite.inj h).symm

theorem round_beyond {negative : Bool} (hdenominator : 0 < denominator)
    (h : Beyond (ofUnits (signed negative numerator) / denominator)) :
    round negative numerator denominator =
      .infinite (decide (ofUnits (signed negative numerator) / denominator < 0)) := by
  obtain ⟨side, hside⟩ := (round_eq_infinite_iff negative numerator hdenominator).2
    ((beyond_iff negative hdenominator).1 h)
  obtain rfl := side_of_round hside
  rw [hside, infinite.injEq, Bool.eq_iff_iff, decide_eq_true_iff,
    ofUnits_div_neg_iff hdenominator h.ne_zero]

theorem exists_round_eq_finite {negative : Bool} (hdenominator : 0 < denominator)
    (h : ¬Beyond (ofUnits (signed negative numerator) / denominator)) :
    ∃ hrange, round negative numerator denominator = .finite negative
      (significand numerator denominator * 2 ^ lastBit (numerator / denominator)) hrange := by
  have hfinite : ¬∃ side, round negative numerator denominator = .infinite side := by
    rwa [round_eq_infinite_iff negative numerator hdenominator, ← beyond_iff negative hdenominator]
  unfold round at hfinite ⊢
  dsimp only at hfinite ⊢
  split
  · simp only [Nat.pow_eq, exists_prop, and_true]
    exact representable_mul_two_pow (significand_le _ _) ‹_›
  · next hrange =>
      rw [dif_neg hrange] at hfinite
      exact absurd ⟨negative, rfl⟩ hfinite

/-- What is within an error of a number is at most as far from it as what the error keeps away,
    on whichever side of zero. -/
theorem abs_signed_sub_le {negative side : Bool} {number near other error : Nat}
    (hbelow : number ≤ near + error) (habove : near ≤ number + error) (hzero : error ≤ number)
    (haway : other + error ≤ number ∨ number + error ≤ other) :
    |signed negative near - signed negative number| ≤
      |signed side other - signed negative number| := by
  have hnear : |signed negative near - signed negative number| ≤ error := by
    rw [abs_le]
    cases negative <;> simp only [signed, Bool.false_eq_true, if_true, if_false] <;> omega
  have hother : (error : Int) ≤ |signed side other - signed negative number| := by
    rw [le_abs]
    cases negative <;> cases side <;>
      simp only [signed, Bool.false_eq_true, if_true, if_false] <;> omega
  exact hnear.trans hother

theorem representable_zero : Representable 0 :=
  ⟨by decide +kernel, 0, 0, by decide, rfl⟩

theorem round_nearest {negative : Bool} (hdenominator : 0 < denominator)
    (h : ¬Beyond (ofUnits (signed negative numerator) / denominator)) :
    (round negative numerator denominator).IsNearest
      (ofUnits (signed negative numerator) / denominator) := by
  obtain ⟨hrange, hround⟩ := exists_round_eq_finite hdenominator h
  obtain ⟨error, hbelow, habove, haway⟩ := exists_error_significand numerator hdenominator
  rw [hround]
  refine ⟨_, rfl, fun y q hy => ?_⟩
  obtain ⟨side, other, hother, rfl, rfl⟩ := finite_of_value? hy
  -- zero is a double, so the error does not reach across it to the other side
  have hzero : error ≤ numerator := by
    have hcase := haway 0 representable_zero
    omega
  have hcase := haway other hother
  rw [ofUnits_sub _ _ hdenominator, ofUnits_sub _ _ hdenominator, abs_div, abs_div]
  refine div_le_div_of_nonneg_right ?_ (abs_nonneg _)
  rw [← Int.cast_abs, ← Int.cast_abs, Int.cast_le, ← signed_mul, ← signed_mul,
    Nat.mul_comm _ denominator, Nat.mul_comm _ denominator]
  exact abs_signed_sub_le hbelow habove hzero hcase

theorem round_rounds (negative : Bool) (hdenominator : 0 < denominator) :
    (round negative numerator denominator).Rounds
      (ofUnits (signed negative numerator) / denominator) where
  nearest := round_nearest hdenominator
  infinite := round_beyond hdenominator

/-! ### Operations that round -/

variable {x y : Double} {value p q : ℚ}

theorem Rounds.withinRange?_beyond (h : x.Rounds value) (hbeyond : Beyond value) :
    withinRange? x = none := by
  rw [h.infinite hbeyond]
  rfl

theorem Rounds.withinRange?_eq (h : x.Rounds value) (hbeyond : ¬Beyond value) :
    withinRange? x = some x := by
  obtain ⟨p, hp, -⟩ := h.nearest hbeyond
  obtain ⟨negative, units, hunits, rfl, -⟩ := finite_of_value? hp
  rfl

theorem signed_natAbs (n : Int) : signed (n < 0) n.natAbs = n := by
  unfold signed
  split
  · next h =>
      have hneg := of_decide_eq_true h
      omega
  · next h =>
      have hnonneg : ¬n < 0 := fun hneg => h (decide_eq_true hneg)
      omega

/-- The quotient of two signed numbers of units does not depend on the unit. -/
theorem ofUnits_signed_div (s t : Bool) (x y : Nat) :
    ofUnits (signed (s != t) (x * one)) / y = (signed s x : ℚ) / signed t y := by
  rw [signed_mul, ofUnits_mul_one]
  cases s <;> cases t <;> simp [signed, neg_div, div_neg]

theorem ofUnits_div_ofUnits (m n : Int) : ofUnits m / ofUnits n = (m : ℚ) / n :=
  div_div_div_cancel_right₀ cast_one_pos.ne' _ _

/-- The quotient of two doubles is the exact one, rounded. -/
theorem div_rounds (hx : x.value? = some (p : NumberLine)) (hy : y.value? = some (q : NumberLine))
    (hq : q ≠ 0) : (x.div y).Rounds (p / q) := by
  obtain ⟨s, m, hm, rfl, rfl⟩ := finite_of_value? hx
  obtain ⟨t, n, hn, rfl, rfl⟩ := finite_of_value? hy
  have hzero : n ≠ 0 := by
    rintro rfl
    exact hq (ofUnits_signed_zero t)
  rw [div, if_neg hzero, ofUnits_div_ofUnits, ← ofUnits_signed_div]
  exact round_rounds _ (Nat.pos_of_ne_zero hzero)

/-- The quotient of two integers is the exact one, rounded, if it does not lie beyond the
    range. -/
theorem exists_ofQuotient?_eq {m n : Int} (hn : n ≠ 0) :
    ∃ x : Double, x.Rounds (m / n) ∧ ofQuotient? m n = withinRange? x := by
  refine ⟨_, ?_, rfl⟩
  have hvalue := ofUnits_signed_div (m < 0) (n < 0) m.natAbs n.natAbs
  rw [signed_natAbs, signed_natAbs] at hvalue
  rw [← hvalue]
  exact round_rounds _ (Int.natAbs_pos.2 hn)

theorem exists_ofInt?_eq (n : Int) : ∃ x : Double, x.Rounds n ∧ ofInt? n = withinRange? x := by
  refine ⟨_, ?_, rfl⟩
  have hvalue : ofUnits (signed (n < 0) (n.natAbs * one)) / (1 : Nat) = n := by
    rw [signed_mul, signed_natAbs, ofUnits_mul_one, Nat.cast_one, div_one]
  rw [← hvalue]
  exact round_rounds _ Nat.one_pos

theorem representable_one : Representable one := by
  have hpow : ∀ i j : Nat, i < j → 2 ^ i < 2 ^ j := fun _ _ =>
    Nat.pow_lt_pow_right (by decide)
  have hrange : one < rangeEnd := by
    rw [one_eq, rangeEnd_eq]
    exact hpow 1074 2098 (by decide)
  obtain ⟨e, he⟩ : ∃ e, one = 1 * Nat.pow 2 e := by
    unfold one
    generalize 1074 = e
    exact ⟨e, (Nat.one_mul _).symm⟩
  exact ⟨hrange, 1, e, by decide, he⟩

/-- An integer other than zero is not rounded to zero, for one is nearer to it. -/
theorem IsNearest.ne_zero {n : Int} (h : x.IsNearest n) (hn : n ≠ 0)
    (hx : x.value? = some (p : NumberLine)) : p ≠ 0 := by
  rintro rfl
  obtain ⟨p', hp', hnearest⟩ := h
  obtain rfl := WithBotTop.coe_injective (Option.some.inj (hx.symm.trans hp'))
  have hunit : (finite (n < 0) one representable_one).value? =
      some (((signed (n < 0) 1 : Int) : ℚ) : NumberLine) := by
    have hsigned : signed (n < 0) one = signed (n < 0) 1 * one := by
      rw [← signed_mul, Nat.one_mul]
    rw [value?, hsigned, ofUnits_mul_one]
  have hle := hnearest _ _ hunit
  rw [← Int.cast_zero, ← Int.cast_sub, ← Int.cast_sub, ← Int.cast_abs, ← Int.cast_abs,
    Int.cast_le] at hle
  unfold signed at hle
  split at hle <;> grind

end Double

end CallLang
