/-
  CallLang/Proofs/NumberLine.lean
  ===============================
  **The line of numbers.**

  Every number but the one that is none has an exact value: a rational number, or one of
  the two infinities at the ends of the line.  Integers and doubles of any size are
  compared by these values and by nothing else.
-/
import CallLang.Number
import CallLang.Proofs.Doubles

namespace CallLang

/-- The rational numbers between two infinities. -/
abbrev NumberLine := WithBotTop ℚ

namespace Double

/-- The rational number that a number of units is. -/
def ofUnits (units : Int) : ℚ :=
  units / one

/-- The exact value of a double, unless it is no number. -/
def value? : Double → Option NumberLine
  | .nan => none
  | .infinite negative => some (if negative then ⊥ else ⊤)
  | .finite negative units _ => some (ofUnits (signed negative units) : NumberLine)

/-- What has a rational value is finite. -/
theorem finite_of_value? {x : Double} {p : ℚ} (h : x.value? = some (p : NumberLine)) :
    ∃ negative units hunits, x = .finite negative units hunits ∧
      p = ofUnits (signed negative units) := by
  cases x with
  | nan => cases h
  | infinite side => cases side <;> cases h
  | finite negative units hunits =>
      exact ⟨negative, units, hunits, rfl, (WithBotTop.coe_injective (Option.some.inj h)).symm⟩

theorem cast_one_pos : (0 : ℚ) < one := by exact_mod_cast one_pos

theorem ofUnits_lt {m n : Int} : ofUnits m < ofUnits n ↔ m < n := by
  rw [ofUnits, ofUnits, div_lt_div_iff_of_pos_right cast_one_pos, Int.cast_lt]

theorem ofUnits_inj {m n : Int} : ofUnits m = ofUnits n ↔ m = n := by
  rw [ofUnits, ofUnits, div_left_inj' cast_one_pos.ne', Int.cast_inj]

theorem ofUnits_mul_one (n : Int) : ofUnits (n * one) = n := by
  rw [ofUnits, Int.cast_mul, Int.cast_natCast, mul_div_cancel_right₀ _ cast_one_pos.ne']

end Double

/-- The exact value of a number, unless it is none. -/
def Number.value? : Number → Option NumberLine
  | .int n => some ((n : ℚ) : NumberLine)
  | .double x => x.value?

/-! ### Ranks -/

namespace Rank

/-- The place of a rank on the line. -/
def value : Rank → NumberLine
  | .bottom => ⊥
  | .at units => (Double.ofUnits units : NumberLine)
  | .top => ⊤

theorem value_lt {x y : Rank} : x.value < y.value ↔ x.lt y = true := by
  cases x <;> cases y <;>
    simp [value, lt, bot_lt_iff_ne_bot, lt_top_iff_ne_top, Double.ofUnits_lt]

theorem value_injective : Function.Injective value := by
  intro x y h
  cases x <;> cases y <;> first | rfl | cases h | skip
  next m n => exact congrArg Rank.at (Double.ofUnits_inj.1 (WithBotTop.coe_injective h))

end Rank

namespace Number

theorem value?_eq (n : Number) : n.value? = n.rank?.map Rank.value := by
  cases n with
  | int n =>
      rw [value?, ← Double.ofUnits_mul_one]
      rfl
  | double x =>
      cases x with
      | nan => rfl
      | infinite negative => cases negative <;> rfl
      | finite negative units h => rfl

theorem value?_eq_none_iff {n : Number} : n.value? = none ↔ n = .double .nan := by
  cases n with
  | int n => simp [value?]
  | double x => cases x <;> simp [value?, Double.value?]

theorem exists_rank? {n : Number} {place : NumberLine} (h : n.value? = some place) :
    ∃ rank, n.rank? = some rank ∧ rank.value = place := by
  rwa [value?_eq, Option.map_eq_some_iff] at h

/-! ### Comparing -/

variable {m n : Number} {x y : NumberLine}

theorem lt_eq (hm : m.value? = some x) (hn : n.value? = some y) : m.lt n = decide (x < y) := by
  obtain ⟨rank, hrank, rfl⟩ := exists_rank? hm
  obtain ⟨rank', hrank', rfl⟩ := exists_rank? hn
  rw [lt, hrank, hrank', Bool.eq_iff_iff, decide_eq_true_eq, Rank.value_lt]

theorem equal_eq (hm : m.value? = some x) (hn : n.value? = some y) :
    m.equal n = decide (x = y) := by
  obtain ⟨rank, hrank, rfl⟩ := exists_rank? hm
  obtain ⟨rank', hrank', rfl⟩ := exists_rank? hn
  rw [equal, hrank, hrank', Bool.eq_iff_iff, decide_eq_true_eq, decide_eq_true_eq,
    Rank.value_injective.eq_iff]

theorem equal_iff {m n : Number} :
    m.equal n = true ↔ ∃ place, m.rank? = some place ∧ n.rank? = some place := by
  unfold equal
  cases m.rank? with
  | none => simp
  | some place =>
      cases n.rank? with
      | none => simp
      | some place' => simp [eq_comm]

/-- Two numbers are equal if they have one exact value. -/
theorem equal_iff_value? :
    m.equal n = true ↔ ∃ place, m.value? = some place ∧ n.value? = some place := by
  rw [equal_iff]
  constructor
  · rintro ⟨rank, hm, hn⟩
    exact ⟨rank.value, by rw [value?_eq, hm]; rfl, by rw [value?_eq, hn]; rfl⟩
  · rintro ⟨place, hm, hn⟩
    obtain ⟨rank, hrank, rfl⟩ := exists_rank? hm
    obtain ⟨rank', hrank', heq⟩ := exists_rank? hn
    exact ⟨rank, hrank, Rank.value_injective heq ▸ hrank'⟩

/-- Integers are compared as integers. -/
theorem lt_ints (m n : Int) : lt (.int m) (.int n) = decide (m < n) := by
  rw [lt_eq rfl rfl]
  simp

theorem equal_ints (m n : Int) : equal (.int m) (.int n) = decide (m = n) := by
  rw [equal_eq rfl rfl]
  simp [WithBotTop.coe_injective.eq_iff]

end Number

/-! ### Integers on the line -/

namespace Double

theorem signed_mul (negative : Bool) (units factor : Nat) :
    signed negative (units * factor) = signed negative units * factor := by
  cases negative <;> simp [signed]

/-- Units are those of an integer if they are a multiple of the units in the number one. -/
theorem signed_eq_mul_one_iff {negative : Bool} {units : Nat} {n : Int} :
    signed negative units = n * one ↔ units % one = 0 ∧ signed negative (units / one) = n := by
  have hone : (one : Int) ≠ 0 := by exact_mod_cast one_pos.ne'
  constructor
  · intro h
    have hunits : units = n.natAbs * one := by
      rw [← natAbs_signed negative units, h, Int.natAbs_mul, Int.natAbs_natCast]
    rw [hunits, signed_mul] at h
    rw [hunits, Nat.mul_mod_left, Nat.mul_div_cancel _ one_pos]
    exact ⟨rfl, Int.eq_of_mul_eq_mul_right hone h⟩
  · rintro ⟨hrest, rfl⟩
    rw [← signed_mul, Nat.div_mul_cancel (Nat.dvd_of_mod_eq_zero hrest)]

theorem toInt?_eq_some_iff {x : Double} {n : Int} :
    x.toInt? = some n ↔ x.rank? = some (.at (n * one)) := by
  cases x with
  | nan => exact iff_of_false nofun nofun
  | infinite negative => cases negative <;> exact iff_of_false nofun nofun
  | finite negative units h =>
      rw [toInt?, rank?, Option.some_inj, Rank.at.injEq, signed_eq_mul_one_iff]
      split
      · next hrest => simp [hrest]
      · next hrest => simp [hrest]

end Double

/-- A number is an integer if its exact value is. -/
theorem Number.toInt?_eq_some_iff {n : Number} {k : Int} :
    n.toInt? = some k ↔ n.value? = some ((k : ℚ) : NumberLine) := by
  have hplace : (Rank.at (k * Double.one)).value = ((k : ℚ) : NumberLine) :=
    congrArg WithBotTop.coe (Double.ofUnits_mul_one k)
  cases n with
  | int n =>
      rw [toInt?, value?, Option.some_inj, Option.some_inj, WithBotTop.coe_injective.eq_iff,
        Int.cast_inj]
  | double x =>
      rw [value?_eq, ← hplace, ← Option.map_some,
        (Option.map_injective Rank.value_injective).eq_iff]
      exact Double.toInt?_eq_some_iff

end CallLang
