/-
  CallLang/Double/Basic.lean
  ==========================
  **Binary floating point numbers of double precision.**

  A finite double is a whole number of *units*, the unit being 2⁻¹⁰⁷⁴, the
  least positive double.  So all finite doubles lie on one grid of integers, a
  double compares with an integer without loss, and a sum of doubles is exact
  before it is rounded.  Not every grid point is a double: the units must have
  at most 53 significant bits and lie below the end of the range.

  All arithmetic goes through `round`, which takes the exact result as a
  quotient of natural numbers and returns the nearest double, ties going to the
  even neighbour and results beyond the range to infinity.
-/

namespace CallLang

/-- The number of units in the number one. -/
def Double.one : Nat := Nat.pow 2 1074

/-- The units of the first power of two beyond the range. -/
def Double.rangeEnd : Nat := Nat.pow 2 2098

/-- The units of a finite double: 53 significant bits, within the range. -/
def Double.Representable (units : Nat) : Prop :=
  units < Double.rangeEnd ∧ ∃ m e : Nat, m < Nat.pow 2 53 ∧ units = m * Nat.pow 2 e

/-- A double.  Zero has a sign like every other finite double, and all results
    that are no number are one value. -/
inductive Double where
  | nan
  | infinite (negative : Bool)
  | finite (negative : Bool) (units : Nat) (representable : Double.Representable units)
deriving DecidableEq

namespace Double

/-! ### Rounding -/

/-- The integer nearest to a quotient, the even one of two equally near. -/
def nearestEven (numerator denominator : Nat) : Nat :=
  let quotient := numerator / denominator
  let rest := numerator % denominator
  if 2 * rest < denominator then quotient
  else if denominator < 2 * rest then quotient + 1
  else if quotient % 2 = 0 then quotient
  else quotient + 1

theorem nearestEven_le (numerator denominator : Nat) :
    nearestEven numerator denominator ≤ numerator / denominator + 1 := by
  unfold nearestEven
  dsimp only
  split
  · omega
  · split
    · omega
    · split <;> omega

/-- The binary exponent, in units, of the last of 53 significant bits. -/
def lastBit (units : Nat) : Nat :=
  units.log2 - 52

/-- The quotient rounded to 53 significant bits, without regard to the range. -/
def significand (numerator denominator : Nat) : Nat :=
  nearestEven numerator (denominator * Nat.pow 2 (lastBit (numerator / denominator)))

theorem significand_le (numerator denominator : Nat) :
    significand numerator denominator ≤ Nat.pow 2 53 := by
  have hbound : numerator / (denominator * Nat.pow 2 (lastBit (numerator / denominator))) <
      Nat.pow 2 53 := by
    rw [← Nat.div_div_eq_div_mul]
    generalize numerator / denominator = units
    have hbits : units.log2 + 1 ≤ 53 + lastBit units := by
      unfold lastBit
      omega
    have hunits : units < Nat.pow 2 53 * Nat.pow 2 (lastBit units) :=
      calc units < Nat.pow 2 (units.log2 + 1) := Nat.lt_log2_self
        _ ≤ Nat.pow 2 (53 + lastBit units) := Nat.pow_le_pow_right (by decide) hbits
        _ = Nat.pow 2 53 * Nat.pow 2 (lastBit units) := Nat.pow_add 2 53 (lastBit units)
    exact (Nat.div_lt_iff_lt_mul (Nat.two_pow_pos _)).2 hunits
  exact Nat.le_trans (nearestEven_le _ _) (Nat.succ_le_of_lt hbound)

/-- A significand of 53 bits, or the power of two just above, shifted to a place
    within the range is representable. -/
theorem representable_mul_two_pow {m e : Nat} (hm : m ≤ Nat.pow 2 53)
    (hrange : m * Nat.pow 2 e < rangeEnd) : Representable (m * Nat.pow 2 e) := by
  refine ⟨hrange, ?_⟩
  by_cases h : m = Nat.pow 2 53
  · have hleft : Nat.pow 2 53 = Nat.pow 2 52 * 2 := rfl
    have hright : Nat.pow 2 (e + 1) = Nat.pow 2 e * 2 := rfl
    refine ⟨Nat.pow 2 52, e + 1, by decide, ?_⟩
    rw [h, hleft, hright]
    ac_rfl
  · exact ⟨m, e, Nat.lt_of_le_of_ne hm h, rfl⟩

/-- The double nearest to a quotient of units, with the given sign. -/
def round (negative : Bool) (numerator denominator : Nat) : Double :=
  let m := significand numerator denominator
  let e := lastBit (numerator / denominator)
  if h : m * Nat.pow 2 e < rangeEnd then
    .finite negative (m * Nat.pow 2 e) (representable_mul_two_pow (significand_le _ _) h)
  else .infinite negative

def withinRange? : Double → Option Double
  | .infinite _ => none
  | x => some x

/-- The double nearest to an integer, if the integer does not lie beyond the
    range. -/
def ofInt? (n : Int) : Option Double :=
  withinRange? (round (n < 0) (n.natAbs * one) 1)

/-- The double nearest to a quotient of integers, if it does not lie beyond the
    range. -/
def ofQuotient? (a b : Int) : Option Double :=
  withinRange? (round ((a < 0) != (b < 0)) (a.natAbs * one) b.natAbs)

/-! ### Arithmetic -/

def signed (negative : Bool) (units : Nat) : Int :=
  if negative then -units else units

def neg : Double → Double
  | .nan => .nan
  | .infinite negative => .infinite !negative
  | .finite negative units h => .finite (!negative) units h

/-- The rounded sum.  A sum of exactly zero is negative only if both operands
    are. -/
def add : Double → Double → Double
  | .nan, _ => .nan
  | _, .nan => .nan
  | .infinite s, .infinite t => if s = t then .infinite s else .nan
  | .infinite s, .finite .. => .infinite s
  | .finite .., .infinite t => .infinite t
  | .finite s x _, .finite t y _ =>
    let sum := signed s x + signed t y
    round (if sum = 0 then s && t else sum < 0) sum.natAbs 1

def sub (x y : Double) : Double :=
  x.add y.neg

/-- The rounded product.  Zero times infinity is no number. -/
def mul : Double → Double → Double
  | .nan, _ => .nan
  | _, .nan => .nan
  | .infinite s, .infinite t => .infinite (s != t)
  | .infinite s, .finite t y _ => if y = 0 then .nan else .infinite (s != t)
  | .finite s x _, .infinite t => if x = 0 then .nan else .infinite (s != t)
  | .finite s x _, .finite t y _ => round (s != t) (x * y) one

/-- The rounded quotient.  A finite double divided by zero is infinite, and zero
    by zero is no number. -/
def div : Double → Double → Double
  | .nan, _ => .nan
  | _, .nan => .nan
  | .infinite _, .infinite _ => .nan
  | .infinite s, .finite t _ _ => .infinite (s != t)
  | .finite s _ _, .infinite t => round (s != t) 0 1
  | .finite s x _, .finite t y _ =>
    if y = 0 then if x = 0 then .nan else .infinite (s != t)
    else round (s != t) (x * one) y

/-! ### Integers -/

/-- Whether a double has no fractional part; infinities do not count. -/
def isIntegral : Double → Bool
  | .finite _ units _ => units % one = 0
  | _ => false

/-- The integer that a double is, if it is one. -/
def toInt? : Double → Option Int
  | .finite negative units _ =>
    if units % one = 0 then some (signed negative (units / one)) else none
  | _ => none

end Double

end CallLang
