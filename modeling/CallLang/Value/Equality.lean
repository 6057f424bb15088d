/-
  CallLang/Value/Equality.lean
  ============================
  **Equality of values.**

  Values are equal if they are of one kind and have the same contents: numbers by
  their exact value, arrays item by item.  A function is equal to itself alone.
  Comparing stops at the first difference, and it is refused when it would go
  deeper than the recursion limit.
-/
import CallLang.Fault.Stop

namespace CallLang

namespace Value

/-- Whether all pairs are equal, up to the first pair that is not. -/
def allEqual (equal : Value → Value → Except Breakdown Bool) :
    List Value → List Value → Except Breakdown Bool
  | a :: as, b :: bs =>
    match equal a b with
    | .ok true => allEqual equal as bs
    | other => other
  | _, _ => .ok true

def equal : Nat → Value → Value → Except Breakdown Bool
  | 0, _, _ => .error .tooDeep
  | limit + 1, a, b =>
    match a, b with
    | .number m, .number n => .ok (m.equal n)
    | .string s, .string t => .ok (s == t)
    | .boolean p, .boolean q => .ok (p == q)
    | .array as, .array bs =>
      if as.length = bs.length then allEqual (equal limit) as bs else .ok false
    | .closure i .., .closure j .. => .ok (i == j)
    | .builtin f g, .builtin h i => .ok (f == h && g == i)
    | _, _ => .ok false

end Value

/-! ### Equality of trees -/

/-- The number that a literal stands for when trees are compared: a boolean counts
    as one or zero. -/
def Value.asNumber? : Value → Option Number
  | .number n => some n
  | .boolean b => some (.int (if b then 1 else 0))
  | _ => none

mutual

def Value.alike : Value → Value → Bool
  | .string s, .string t => s == t
  | .array as, .array bs => Value.allAlike as bs
  | .closure i .., .closure j .. => i == j
  | .builtin f g, .builtin h i => f == h && g == i
  | a, b =>
    match a.asNumber?, b.asNumber? with
    | some m, some n => m.equal n
    | _, _ => false

def Value.allAlike : List Value → List Value → Bool
  | [], [] => true
  | a :: as, b :: bs => a.alike b && Value.allAlike as bs
  | _, _ => false

end

mutual

/-- Whether two trees are the same program, wherever they were read. -/
def Expr.alike : Expr → Expr → Bool
  | .literal v _, .literal w _ => v.alike w
  | .name m _, .name n _ => m == n
  | .call f as _, .call g bs _ => f.alike g && Expr.allAlike as bs
  | .hole, .hole => true
  | _, _ => false

def Expr.allAlike : List Expr → List Expr → Bool
  | [], [] => true
  | a :: as, b :: bs => a.alike b && Expr.allAlike as bs
  | _, _ => false

end

end CallLang
