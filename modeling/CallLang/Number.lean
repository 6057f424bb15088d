/-
  CallLang/Number.lean
  ====================
  **Numbers.**

  A number of the language is an integer of any size or a double.  Sums,
  differences and products of integers are exact; with a double among the
  operands both become doubles, which an integer beyond the range cannot.  A
  quotient is an integer whenever it is one.  Comparisons never round: every
  number but the one that is none has a `Rank` on one line, and two numbers are
  compared by their ranks.
-/
import CallLang.Double.Basic

namespace CallLang

inductive Number where
  | int (n : Int)
  | double (x : Double)
deriving DecidableEq

/-! ### Order -/

/-- A place on the line of numbers, in the units of doubles, with the two
    infinities at its ends. -/
inductive Rank where
  | bottom
  | at (units : Int)
  | top
deriving DecidableEq

def Rank.lt : Rank → Rank → Bool
  | .bottom, .bottom => false
  | .bottom, _ => true
  | .at _, .bottom => false
  | .at x, .at y => x < y
  | .at _, .top => true
  | .top, _ => false

/-- The place of a double, unless it is no number. -/
def Double.rank? : Double → Option Rank
  | .nan => none
  | .infinite negative => some (if negative then .bottom else .top)
  | .finite negative units _ => some (.at (Double.signed negative units))

namespace Number

/-- The place of a number, unless it is none. -/
def rank? : Number → Option Rank
  | .int n => some (.at (n * Double.one))
  | .double x => x.rank?

/-- Whether the first number lies below the second. -/
def lt (a b : Number) : Bool :=
  match a.rank?, b.rank? with
  | some x, some y => x.lt y
  | _, _ => false

/-- Whether two numbers have the same exact value. -/
def equal (a b : Number) : Bool :=
  match a.rank?, b.rank? with
  | some x, some y => x = y
  | _, _ => false

/-! ### Arithmetic -/

/-- A number as a double, unless it is an integer beyond the range. -/
def toDouble? : Number → Option Double
  | .int n => Double.ofInt? n
  | .double x => some x

/-- An operation that is exact on integers and rounds on doubles.  It fails when
    an integer beyond the range meets a double. -/
def arithmetic (exact : Int → Int → Int) (rounded : Double → Double → Double)
    (a b : Number) : Option Number :=
  match a, b with
  | .int m, .int n => some (.int (exact m n))
  | _, _ =>
    match a.toDouble?, b.toDouble? with
    | some x, some y => some (.double (rounded x y))
    | _, _ => none

def add : Number → Number → Option Number := arithmetic (· + ·) Double.add

def sub : Number → Number → Option Number := arithmetic (· - ·) Double.sub

def mul : Number → Number → Option Number := arithmetic (· * ·) Double.mul

inductive DivisionFault where
  | byZero
  | outOfRange
deriving DecidableEq, Repr

/-- The quotient: an integer if both operands are and the second divides the
    first, else a double. -/
def div (a b : Number) : Except DivisionFault Number :=
  if b.equal (.int 0) then .error .byZero
  else
    let quotient := match a, b with
      | .int m, .int n => if n ∣ m then some (.int (m / n)) else (Double.ofQuotient? m n).map .double
      | _, _ =>
        match a.toDouble?, b.toDouble? with
        | some x, some y => some (.double (x.div y))
        | _, _ => none
    match quotient with
    | some number => .ok number
    | none => .error .outOfRange

/-! ### Integers -/

/-- The integer that a number is, if it is one. -/
def toInt? : Number → Option Int
  | .int n => some n
  | .double x => x.toInt?

end Number

end CallLang
