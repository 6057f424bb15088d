/-
  CallLang/Double/Decimal.lean
  ============================
  **Doubles in decimal notation.**

  A double is written with the fewest digits that still tell it from every other
  double: the decimal is taken from the coarsest grid of a power of ten that has
  a point in the interval of the reals rounding to the double, and is the point
  nearest to it.  `Layout` decides where the point stands and when an exponent
  is written.  `ofDecimal?` reads decimal notation back, rounding once.
-/
import CallLang.Double.Basic
import CallLang.Text.Digits

namespace CallLang

/-- The decimal number `coefficient · 10 ^ exponent`. -/
structure Decimal where
  coefficient : Nat
  exponent : Int
deriving DecidableEq, Repr

/-- How a decimal is written.  The exponent of its first digit decides between a
    plain notation, which always shows a point, and one with an exponent. -/
structure Layout where
  /-- The least exponent of a first digit that is written plainly. -/
  leastPlain : Int
  /-- The greatest exponent of a first digit that is written plainly. -/
  greatestPlain : Int
  /-- The least number of digits of a written exponent. -/
  exponentDigits : Nat
deriving DecidableEq, Repr

/-- Doubles show no exponent from `0.0001` up to sixteen digits before the point,
    and two digits of exponent at least. -/
def Layout.double : Layout :=
  { leastPlain := -4, greatestPlain := 15, exponentDigits := 2 }

/-- A decimal as it is written: digits around a point, or one digit before the
    point and an exponent behind. -/
def Decimal.write (layout : Layout) (decimal : Decimal) : List Char :=
  let digits := (Nat.repr decimal.coefficient).toList
  let first := decimal.exponent + digits.length - 1
  if layout.leastPlain ≤ first ∧ first ≤ layout.greatestPlain then
    if 0 ≤ decimal.exponent then
      digits ++ List.replicate decimal.exponent.toNat '0' ++ ['.', '0']
    else
      let places := (-decimal.exponent).toNat
      let padded := Text.zeroPadded (places + 1) digits
      padded.take (padded.length - places) ++ '.' :: padded.drop (padded.length - places)
  else
    let tail := digits.drop 1
    digits.take 1 ++ (if tail.isEmpty then [] else '.' :: tail) ++
      'e' :: (if first < 0 then '-' else '+') ::
        Text.zeroPadded layout.exponentDigits (Nat.repr first.natAbs).toList

namespace Double

/-! ### The shortest decimal -/

/-- The interval of the reals that round to a positive double, in quarters of a
    unit, with whether its ends belong to it.  It reaches half way to both
    neighbours, and the lower neighbour of a power of two is the nearer one. -/
structure Interval where
  low : Nat
  high : Nat
  closed : Bool

def interval (units : Nat) : Interval :=
  let gap := Nat.pow 2 (lastBit units)
  let below := if lastBit units ≠ 0 ∧ units = Nat.pow 2 52 * gap then gap else 2 * gap
  { low := 4 * units - below
    high := 4 * units + 2 * gap
    closed := units / gap % 2 = 0 }

/-- `10 ^ exponent` as a quotient of natural numbers. -/
def powerOfTen (exponent : Int) : Nat × Nat :=
  if 0 ≤ exponent then (Nat.pow 10 exponent.toNat, 1) else (1, Nat.pow 10 (-exponent).toNat)

/-- Whether the decimal `coefficient · 10 ^ exponent` lies in an interval. -/
def Interval.contains (range : Interval) (decimal : Decimal) : Bool :=
  let (up, down) := powerOfTen decimal.exponent
  let place := 4 * decimal.coefficient * up * one
  if range.closed then range.low * down ≤ place && place ≤ range.high * down
  else range.low * down < place && place < range.high * down

/-- The point of the grid of `10 ^ exponent` that lies in the rounding interval of
    a positive number of units and is nearest to it, the even one of two equally
    near.  Only the two neighbours of the number on the grid come into question. -/
def onGrid? (units : Nat) (exponent : Int) : Option Decimal :=
  let (up, down) := powerOfTen exponent
  let floor := units * down / (one * up)
  let rest := units * down % (one * up)
  let lower : Decimal := { coefficient := floor, exponent }
  let upper : Decimal := { coefficient := floor + 1, exponent }
  match (interval units).contains lower, (interval units).contains upper with
  | false, false => none
  | true, false => some lower
  | false, true => some upper
  | true, true =>
    if 2 * rest < one * up then some lower
    else if one * up < 2 * rest then some upper
    else if floor % 2 = 0 then some lower
    else some upper

/-- An exponent whose power of ten is at least the number of units. -/
def coarsest (units : Nat) : Int :=
  if one ≤ units then (Nat.repr (units / one)).length
  else 1 - ((Nat.repr (one / units)).length : Int)

/-- The first grid with a point in the rounding interval, from an exponent
    downwards.  When the steps are used up, the neighbour below is taken. -/
def searchGrids (units : Nat) : Nat → Int → Decimal
  | 0, exponent =>
    let (up, down) := powerOfTen exponent
    { coefficient := units * down / (one * up), exponent }
  | steps + 1, exponent =>
    match onGrid? units exponent with
    | some decimal => decimal
    | none => searchGrids units steps (exponent - 1)

/-- The shortest decimal that rounds to a positive number of units.  Seventeen
    digits pin down every double, so twenty grids are enough. -/
def shortest (units : Nat) : Decimal :=
  searchGrids units 20 (coarsest units)

def write : Double → String
  | .nan => "nan"
  | .infinite negative => if negative then "-inf" else "inf"
  | .finite negative units _ =>
    let digits :=
      if units = 0 then ['0', '.', '0'] else (shortest units).write Layout.double
    String.ofList (if negative then '-' :: digits else digits)

/-! ### Reading -/

/-- The double nearest to a decimal.  Exponents far beyond the range are decided
    by the number of digits, before a power of ten is computed. -/
def ofDecimal (negative : Bool) (decimal : Decimal) : Double :=
  let first := decimal.exponent + (Nat.repr decimal.coefficient).length
  if decimal.coefficient = 0 ∨ first < -400 then round negative 0 1
  else if 400 < first then .infinite negative
  else
    let (up, down) := powerOfTen decimal.exponent
    round negative (decimal.coefficient * up * one) down

/-- Reads an optional exponent, which must end the text. -/
def readExponent? : List Char → Option Int
  | [] => some 0
  | c :: rest =>
    if c = 'e' ∨ c = 'E' then
      let (negative, digits) := match rest with
        | '-' :: digits => (true, digits)
        | '+' :: digits => (false, digits)
        | digits => (false, digits)
      if digits.isEmpty || !digits.all Char.isDigit then none
      else some (if negative then -(Text.digitsValue digits) else Text.digitsValue digits)
    else none

/-- Reads digits with an optional point among them and an optional exponent. -/
def readDecimal? (text : List Char) : Option Decimal :=
  let whole := text.takeWhile Char.isDigit
  let (places, rest) := match text.dropWhile Char.isDigit with
    | '.' :: rest => (rest.takeWhile Char.isDigit, rest.dropWhile Char.isDigit)
    | rest => ([], rest)
  if whole.isEmpty && places.isEmpty then none
  else (readExponent? rest).map fun exponent =>
    { coefficient := Text.digitsValue (whole ++ places), exponent := exponent - places.length }

/-- Reads a double from decimal notation, from `inf` or from `nan`. -/
def read? (text : String) : Option Double :=
  let (negative, rest) := match text.toList with
    | '-' :: rest => (true, rest)
    | '+' :: rest => (false, rest)
    | rest => (false, rest)
  let word := String.ofList (rest.map Char.toLower)
  if word = "inf" ∨ word = "infinity" then some (.infinite negative)
  else if word = "nan" then some .nan
  else (readDecimal? rest).map (ofDecimal negative)

end Double

end CallLang
