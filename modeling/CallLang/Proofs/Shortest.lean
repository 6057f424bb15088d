/-
  CallLang/Proofs/Shortest.lean
  =============================
  **The decimal of a double tells it from every other double.**

  The decimal that a double is written as lies in its rounding interval: if none of the
  twenty grids that are searched has a point there, the neighbour below on the next
  grid is taken, and that grid is finer than a quarter of the gap between doubles.
  The rounding intervals of two doubles do not overlap.  Where they touch, the two
  doubles are neighbours and at most one of them is even, so that at most one interval
  contains its end.
-/
import CallLang.Double.Decimal
import CallLang.Proofs.Doubles

namespace CallLang

/-- The number that a decimal stands for. -/
def Decimal.value (decimal : Decimal) : ℚ :=
  decimal.coefficient * 10 ^ decimal.exponent

namespace Double

/-! ### The gap between doubles -/

theorem lastBit_mono {u v : Nat} (h : u ≤ v) : lastBit u ≤ lastBit v := by
  by_cases hu : u = 0
  · simp [hu, lastBit]
  · have hlog : u.log2 ≤ v.log2 :=
      (Nat.le_log2 (by omega)).2 (Nat.le_trans (Nat.log2_self_le hu) h)
    exact Nat.sub_le_sub_right hlog 52

theorem lt_mul_gap (units : Nat) : units < 2 ^ 53 * 2 ^ lastBit units := by
  rw [← pow_add]
  refine Nat.lt_of_lt_of_le Nat.lt_log2_self (Nat.pow_le_pow_right (by decide) ?_)
  unfold lastBit
  omega

/-- All bits of a significand are used, unless its last bit is one unit. -/
theorem mul_gap_le {units : Nat} (h : lastBit units ≠ 0) : 2 ^ 52 * 2 ^ lastBit units ≤ units := by
  have hzero : units ≠ 0 := by
    rintro rfl
    exact h (by simp [lastBit])
  rw [← pow_add, ← Nat.le_log2 hzero]
  unfold lastBit at h ⊢
  omega

theorem gap_le {units : Nat} (hunits : units ≠ 0) : 2 ^ lastBit units ≤ units := by
  by_cases h : lastBit units = 0
  · rw [h]
    exact Nat.one_le_iff_ne_zero.2 hunits
  · have hfull := mul_gap_le h
    omega

/-- A double is a multiple of the gap around it. -/
theorem Representable.gap_dvd {units : Nat} (h : Representable units) :
    2 ^ lastBit units ∣ units := by
  obtain ⟨-, m, e, hm, hunits⟩ := h
  rw [Nat.pow_eq] at hm hunits
  by_cases hzero : units = 0
  · rw [hzero]
    exact dvd_zero _
  · have hlog : units.log2 < 53 + e := by
      rw [Nat.log2_lt hzero, pow_add, hunits]
      exact Nat.mul_lt_mul_of_pos_right hm (Nat.two_pow_pos e)
    have hlast : lastBit units ≤ e := by
      unfold lastBit
      omega
    rw [hunits] at hlast ⊢
    exact Dvd.dvd.mul_left (pow_dvd_pow 2 hlast) m

/-! ### Rounding intervals -/

/-- Whether a number of quarters of a unit lies in an interval. -/
def Interval.Covers (range : Interval) (x : ℚ) : Prop :=
  if range.closed then range.low ≤ x ∧ x ≤ range.high else range.low < x ∧ x < range.high

/-- An interval reaches a quarter or half a gap below its double. -/
theorem interval_low (units : Nat) :
    (lastBit units ≠ 0 ∧ units = 2 ^ 52 * 2 ^ lastBit units ∧
      (interval units).low = 4 * units - 2 ^ lastBit units) ∨
    (¬(lastBit units ≠ 0 ∧ units = 2 ^ 52 * 2 ^ lastBit units) ∧
      (interval units).low = 4 * units - 2 * 2 ^ lastBit units) := by
  unfold interval
  simp only [Nat.pow_eq]
  split
  · next h => exact .inl ⟨h.1, h.2, rfl⟩
  · next h => exact .inr ⟨h, rfl⟩

theorem interval_high (units : Nat) :
    (interval units).high = 4 * units + 2 * 2 ^ lastBit units := rfl

theorem interval_closed {units gap a : Nat} (hgap : 2 ^ lastBit units = gap)
    (hunits : units = gap * a) : (interval units).closed = decide (a % 2 = 0) := by
  have hpos : 0 < gap := hgap ▸ Nat.two_pow_pos _
  unfold interval
  simp only [Nat.pow_eq, hgap]
  rw [hunits, Nat.mul_div_cancel_left a hpos]

theorem add_le_of_dvd {gap m n : Nat} (hm : gap ∣ m) (hn : gap ∣ n) (h : m < n) : m + gap ≤ n := by
  have hle := Nat.le_of_dvd (Nat.sub_pos_of_lt h) (Nat.dvd_sub hn hm)
  omega

theorem sub_touches {x y z : Nat} (h : x + y ≤ z) : x ≤ z - y ∧ (x = z - y → x + y = z) := by
  omega

/-- Doubles with different gaps: the greater one does not lie below the next power of two, and
    the last double before a power of two is odd. -/
theorem high_le_low_of_lastBit_lt {u v : Nat} (hu : Representable u) (hv : Representable v)
    (h : lastBit u < lastBit v) :
    (interval u).high ≤ (interval v).low ∧
      ((interval u).high = (interval v).low → (interval u).closed = false) := by
  have hparity : ∀ a, a + 1 = 2 ^ 53 → a % 2 ≠ 0 := by omega
  have hdouble : 2 * 2 ^ lastBit u ≤ 2 ^ lastBit v := by
    rw [← pow_succ']
    exact Nat.pow_le_pow_right (by decide) h
  have hlast := add_le_of_dvd hu.gap_dvd (Dvd.intro_left _ rfl) (lt_mul_gap u)
  have hfull := mul_gap_le (Nat.ne_zero_of_lt h)
  have hlow := interval_low v
  have hgap := Nat.two_pow_pos (lastBit u)
  have hdvd := hv.gap_dvd
  obtain ⟨a, ha⟩ := hu.gap_dvd
  rw [interval_high, interval_closed rfl ha]
  generalize 2 ^ lastBit u = g at *
  generalize 2 ^ lastBit v = g' at *
  rcases hlow with ⟨-, hpower, hlow⟩ | ⟨hpower, hlow⟩
  · obtain ⟨hle, htouch⟩ := sub_touches (show 4 * u + 2 * g + g' ≤ 4 * v by linarith)
    rw [hlow]
    refine ⟨hle, fun heq => ?_⟩
    have hends := htouch heq
    have hodd : g * (a + 1) = g * 2 ^ 53 := by
      rw [Nat.mul_add, ← ha]
      linarith
    rw [decide_eq_false_iff_not]
    exact hparity a (Nat.eq_of_mul_eq_mul_left hgap hodd)
  · have hbeyond : 2 ^ 52 * g' < v :=
      Nat.lt_of_le_of_ne hfull fun heq => hpower ⟨Nat.ne_zero_of_lt h, heq.symm⟩
    have hnext := add_le_of_dvd (Dvd.intro_left _ rfl) hdvd hbeyond
    have hends : 4 * u + 2 * g + 2 * g' < 4 * v := by linarith
    obtain ⟨hle, htouch⟩ := sub_touches hends.le
    rw [hlow]
    exact ⟨hle, fun heq => absurd (htouch heq) hends.ne⟩

/-- Doubles with one gap: only neighbours have intervals that touch, and one of them is odd. -/
theorem high_le_low_of_lastBit_eq {u v : Nat} (hu : Representable u) (hv : Representable v)
    (h : u < v) (hbits : lastBit u = lastBit v) :
    (interval u).high ≤ (interval v).low ∧
      ((interval u).high = (interval v).low →
        (interval u).closed = false ∨ (interval v).closed = false) := by
  have hlow := interval_low v
  have hgap := Nat.two_pow_pos (lastBit v)
  have hu' := hu.gap_dvd
  rw [hbits] at hu'
  have hnext := add_le_of_dvd hu' hv.gap_dvd h
  obtain ⟨a, ha⟩ := hu'
  obtain ⟨b, hb⟩ := hv.gap_dvd
  rw [interval_high, interval_closed (congrArg _ hbits) ha, interval_closed rfl hb, hbits]
  generalize 2 ^ lastBit v = g at *
  rcases hlow with ⟨-, -, hlow⟩ | ⟨-, hlow⟩
  · have hends : 4 * u + 2 * g + g < 4 * v := by omega
    obtain ⟨hle, htouch⟩ := sub_touches hends.le
    rw [hlow]
    exact ⟨hle, fun heq => absurd (htouch heq) hends.ne⟩
  · obtain ⟨hle, htouch⟩ := sub_touches (show 4 * u + 2 * g + 2 * g ≤ 4 * v by omega)
    rw [hlow]
    refine ⟨hle, fun heq => ?_⟩
    have hends := htouch heq
    have hsucc : g * b = g * (a + 1) := by
      rw [Nat.mul_add, ← ha, ← hb]
      omega
    have hneighbour := Nat.eq_of_mul_eq_mul_left hgap hsucc
    rw [decide_eq_false_iff_not, decide_eq_false_iff_not]
    omega

/-- An interval ends where the next one begins or before, and not both contain the end. -/
theorem interval_high_le_low {u v : Nat} (hu : Representable u) (hv : Representable v) (h : u < v) :
    (interval u).high ≤ (interval v).low ∧
      ((interval u).high = (interval v).low →
        (interval u).closed = false ∨ (interval v).closed = false) := by
  rcases Nat.lt_or_eq_of_le (lastBit_mono h.le) with hbits | hbits
  · obtain ⟨hle, hclosed⟩ := high_le_low_of_lastBit_lt hu hv hbits
    exact ⟨hle, fun heq => .inl (hclosed heq)⟩
  · exact high_le_low_of_lastBit_eq hu hv h hbits

theorem Interval.Covers.bounds {range : Interval} {x : ℚ} (h : range.Covers x) :
    range.low ≤ x ∧ x ≤ range.high := by
  unfold Covers at h
  split at h
  · exact h
  · exact ⟨h.1.le, h.2.le⟩

theorem not_covers_of_lt {u v : Nat} (hu : Representable u) (hv : Representable v) (h : u < v)
    {x : ℚ} (hx : (interval u).Covers x) : ¬(interval v).Covers x := by
  intro hx'
  obtain ⟨hle, hends⟩ := interval_high_le_low hu hv h
  have hle' : ((interval u).high : ℚ) ≤ (interval v).low := by exact_mod_cast hle
  have hhigh := hx.bounds.2
  have hlow := hx'.bounds.1
  have heq : (interval u).high = (interval v).low := by
    have : ((interval u).high : ℚ) = (interval v).low := by linarith
    exact_mod_cast this
  have heq' : ((interval u).high : ℚ) = (interval v).low := by rw [heq]
  rcases hends heq with hopen | hopen
  · rw [Interval.Covers, hopen] at hx
    have hstrict := hx.2
    linarith
  · rw [Interval.Covers, hopen] at hx'
    have hstrict := hx'.1
    linarith

/-! ### Grids -/

theorem powerOfTen_snd_pos (exponent : Int) : 0 < (powerOfTen exponent).2 := by
  unfold powerOfTen
  split
  · exact Nat.one_pos
  · exact Nat.pow_pos (by decide)

theorem powerOfTen_fst_pos (exponent : Int) : 0 < (powerOfTen exponent).1 := by
  unfold powerOfTen
  split
  · exact Nat.pow_pos (by decide)
  · exact Nat.one_pos

theorem powerOfTen_eq (exponent : Int) :
    (10 : ℚ) ^ exponent = (powerOfTen exponent).1 / (powerOfTen exponent).2 := by
  unfold powerOfTen
  split
  · next h =>
      obtain ⟨n, rfl⟩ := Int.eq_ofNat_of_zero_le h
      simp [Nat.pow_eq]
  · next h =>
      obtain ⟨n, hn⟩ := Int.eq_ofNat_of_zero_le (Int.neg_nonneg.2 (Int.le_of_lt (Int.not_le.1 h)))
      obtain rfl : exponent = -n := by omega
      simp [Nat.pow_eq]

theorem contains_iff (range : Interval) (decimal : Decimal) :
    range.contains decimal = true ↔ range.Covers (4 * decimal.value * one) := by
  have hdown : (0 : ℚ) < (powerOfTen decimal.exponent).2 := by
    exact_mod_cast powerOfTen_snd_pos _
  have hplace : 4 * decimal.value * one =
      (4 * decimal.coefficient * (powerOfTen decimal.exponent).1 * one : Nat) /
        (powerOfTen decimal.exponent).2 := by
    rw [Decimal.value, powerOfTen_eq]
    push_cast
    ring
  rw [hplace]
  unfold Interval.contains Interval.Covers
  dsimp only
  split
  · rw [Bool.and_eq_true, decide_eq_true_eq, decide_eq_true_eq, le_div_iff₀ hdown,
      div_le_iff₀ hdown]
    norm_cast
  · rw [Bool.and_eq_true, decide_eq_true_eq, decide_eq_true_eq, lt_div_iff₀ hdown,
      div_lt_iff₀ hdown]
    norm_cast

/-- The neighbour below a number of units on a grid. -/
theorem grid_bounds (units : Nat) (exponent : Int) :
    let decimal : Decimal :=
      { coefficient := units * (powerOfTen exponent).2 / (one * (powerOfTen exponent).1), exponent }
    decimal.value * one ≤ units ∧ units < (decimal.value + 10 ^ exponent) * one := by
  intro decimal
  have hone : (0 : ℚ) < one := by exact_mod_cast one_pos
  have hdown : (0 : ℚ) < (powerOfTen exponent).2 := by exact_mod_cast powerOfTen_snd_pos exponent
  have hstep : 0 < one * (powerOfTen exponent).1 :=
    Nat.mul_pos one_pos (powerOfTen_fst_pos exponent)
  have hbelow : decimal.coefficient * (one * (powerOfTen exponent).1) ≤
      units * (powerOfTen exponent).2 := Nat.div_mul_le_self _ _
  have habove : units * (powerOfTen exponent).2 <
      (decimal.coefficient + 1) * (one * (powerOfTen exponent).1) :=
    Nat.lt_mul_of_div_lt (Nat.lt_succ_self _) hstep
  have hbelow' : (decimal.coefficient : ℚ) * (one * (powerOfTen exponent).1) ≤
      units * (powerOfTen exponent).2 := by exact_mod_cast hbelow
  have habove' : (units : ℚ) * (powerOfTen exponent).2 <
      (decimal.coefficient + 1) * (one * (powerOfTen exponent).1) := by exact_mod_cast habove
  rw [Decimal.value, powerOfTen_eq]
  constructor
  · rw [← mul_div_assoc, div_mul_eq_mul_div, div_le_iff₀ hdown]
    linarith
  · rw [← add_one_mul, ← mul_div_assoc, div_mul_eq_mul_div, lt_div_iff₀ hdown]
    linarith

theorem covers_onGrid? {units : Nat} {exponent : Int} {decimal : Decimal}
    (h : onGrid? units exponent = some decimal) :
    (interval units).Covers (4 * decimal.value * one) := by
  rw [← contains_iff]
  unfold onGrid? at h
  dsimp only at h
  split at h
  · cases h
  · next hlower _ => exact Option.some.inj h ▸ hlower
  · next _ hupper => exact Option.some.inj h ▸ hupper
  · next hlower hupper =>
      split at h
      · exact Option.some.inj h ▸ hlower
      · split at h
        · exact Option.some.inj h ▸ hupper
        · split at h
          · exact Option.some.inj h ▸ hlower
          · exact Option.some.inj h ▸ hupper

/-- The neighbour below lies in the interval if the grid is finer than a quarter of the gap. -/
theorem covers_below {units : Nat} (hunits : units ≠ 0) {x step : ℚ} (hx : x ≤ units)
    (hstep : units < x + step) (hfine : 4 * step ≤ 2 ^ lastBit units) :
    (interval units).Covers (4 * x) := by
  have hgap := gap_le hunits
  have hpos : (0 : ℚ) < 2 ^ lastBit units := by positivity
  have hlow : ((interval units).low : ℚ) ≤ 4 * units - 2 ^ lastBit units := by
    have hnat : (interval units).low + 2 ^ lastBit units ≤ 4 * units := by
      rcases interval_low units with ⟨-, -, hlow⟩ | ⟨-, hlow⟩ <;> omega
    have hrat : ((interval units).low : ℚ) + 2 ^ lastBit units ≤ 4 * units := by
      exact_mod_cast hnat
    linarith
  have hhigh : ((interval units).high : ℚ) = 4 * units + 2 * 2 ^ lastBit units := by
    rw [interval_high]
    push_cast
    rfl
  have hinside : ((interval units).low : ℚ) < 4 * x ∧ 4 * x < (interval units).high :=
    ⟨by linarith, by linarith⟩
  unfold Interval.Covers
  split
  · exact ⟨hinside.1.le, hinside.2.le⟩
  · exact hinside

theorem covers_searchGrids {units : Nat} (hunits : units ≠ 0) {steps : Nat} {exponent : Int}
    (hfine : 4 * (10 ^ (exponent - steps) * one) ≤ (2 ^ lastBit units : ℚ)) :
    (interval units).Covers (4 * (searchGrids units steps exponent).value * one) := by
  induction steps generalizing exponent with
  | zero =>
      rw [Nat.cast_zero, sub_zero] at hfine
      obtain ⟨hbelow, habove⟩ := grid_bounds units exponent
      rw [mul_assoc]
      exact covers_below hunits hbelow (by rwa [add_mul] at habove) hfine
  | succ steps ih =>
      rw [searchGrids]
      split
      · next decimal hdecimal => exact covers_onGrid? hdecimal
      · apply ih
        rwa [Nat.cast_succ, ← sub_sub, sub_right_comm] at hfine

/-! ### The first grid -/

theorem length_repr (n : Nat) : (Nat.repr n).length = (Nat.toDigits 10 n).length := by
  rw [Nat.repr_eq_ofList_toDigits, String.length_ofList]

theorem lt_pow_length_repr (n : Nat) : n < 10 ^ (Nat.repr n).length := by
  rw [length_repr]
  exact (Nat.length_toDigits_le_iff (by decide) Nat.length_toDigits_pos).1 le_rfl

theorem pow_length_repr_le {n length : Nat} (hn : n ≠ 0) (h : (Nat.repr n).length = length + 1) :
    10 ^ length ≤ n := by
  rw [length_repr] at h
  rcases Nat.eq_zero_or_pos length with rfl | hlength
  · exact Nat.one_le_iff_ne_zero.2 hn
  · by_contra hsmall
    have hshort := (Nat.length_toDigits_le_iff (by decide) hlength).2 (Nat.lt_of_not_le hsmall)
    omega

/-- The search begins at most one grid above the number. -/
theorem pow_coarsest_le {units : Nat} (hunits : units ≠ 0) :
    10 ^ (coarsest units - 1) * (one : ℚ) ≤ units := by
  unfold coarsest
  split
  · next hlarge =>
      have hwhole : units / one ≠ 0 := (Nat.div_pos hlarge one_pos).ne'
      obtain ⟨length, hlength⟩ : ∃ length, (Nat.repr (units / one)).length = length + 1 :=
        Nat.exists_eq_add_one.2 (by rw [length_repr]; exact Nat.length_toDigits_pos)
      have hpow : 10 ^ length * one ≤ units :=
        (Nat.le_div_iff_mul_le one_pos).1 (pow_length_repr_le hwhole hlength)
      rw [hlength, Nat.cast_succ, add_sub_cancel_right, zpow_natCast]
      exact_mod_cast hpow
  · have hpow : one < 10 ^ (Nat.repr (one / units)).length * units :=
      (Nat.div_lt_iff_lt_mul (Nat.pos_of_ne_zero hunits)).1 (lt_pow_length_repr _)
    have hrat : (one : ℚ) < 10 ^ (Nat.repr (one / units)).length * units := by exact_mod_cast hpow
    have hten : (0 : ℚ) < 10 ^ (Nat.repr (one / units)).length := by positivity
    rw [sub_sub_cancel_left, zpow_neg, zpow_natCast, inv_mul_le_iff₀ hten]
    exact hrat.le

/-- The decimal that a double is written as lies in its rounding interval. -/
theorem covers_shortest {units : Nat} (hunits : units ≠ 0) :
    (interval units).Covers (4 * (shortest units).value * one) := by
  apply covers_searchGrids hunits
  have hfirst := pow_coarsest_le hunits
  have hgap : (units : ℚ) < 2 ^ 53 * 2 ^ lastBit units := by exact_mod_cast lt_mul_gap units
  have hgrid : (10 : ℚ) ^ (coarsest units - (20 : Nat)) = 10 ^ (coarsest units - 1) / 10 ^ 19 := by
    have hexponent : coarsest units - (20 : Nat) = coarsest units - 1 - 19 := by omega
    rw [hexponent, zpow_sub₀ (by norm_num), zpow_ofNat]
  rw [hgrid, div_mul_eq_mul_div, ← mul_div_assoc, div_le_iff₀ (by norm_num)]
  linarith

/-- No other double is written as the same decimal. -/
theorem eq_of_shortest {u v : Nat} (hu : Representable u) (hv : Representable v) (hu' : u ≠ 0)
    (hv' : v ≠ 0) (h : (shortest u).value = (shortest v).value) : u = v := by
  have hcovers := covers_shortest hu'
  have hcovers' := covers_shortest hv'
  rw [← h] at hcovers'
  rcases Nat.lt_trichotomy u v with hlt | heq | hgt
  · exact absurd hcovers' (not_covers_of_lt hu hv hlt hcovers)
  · exact heq
  · exact absurd hcovers (not_covers_of_lt hv hu hgt hcovers')

end Double

end CallLang
