/-
  CallLang/Proofs/Elements.lean
  =============================
  **Length and element take arrays apart.**

  An index is any number, and it selects an item if its exact value is the number of a
  place in the array.  Any other number is refused with a message that shows it, and that
  breaks down if the number is an integer too long to be shown.
-/
import CallLang.Eval
import CallLang.Proofs.Display
import CallLang.Proofs.NumberLine

namespace CallLang

namespace Builtin

variable {items : List Value} {index : Number} {place : Option Span}

/-- The item whose place is the exact value of an index. -/
theorem item_eq_pure {k : Nat} {value : Value} (hvalue : items[k]? = some value)
    (hindex : index.value? = some ((k : ℚ) : NumberLine)) :
    item items index place = Action.pure value := by
  have hint : index.toInt? = some (k : Int) := by
    rw [Number.toInt?_eq_some_iff, Int.cast_natCast]
    exact hindex
  have hnonneg : ¬(k : Int) < 0 := Int.not_lt.2 (Int.natCast_nonneg k)
  simp only [item, hint, Option.bind_some, hnonneg, if_false, Int.toNat_natCast, hvalue]

theorem item_not_found (h : ∀ k < items.length, index.value? ≠ some ((k : ℚ) : NumberLine)) :
    (index.toInt?.bind fun n => if n < 0 then none else items[n.toNat]?) = none := by
  rw [Option.bind_eq_none_iff]
  intro n hn
  split
  · rfl
  · next hnonneg =>
      rw [List.getElem?_eq_none_iff]
      by_contra hlength
      refine h n.toNat (Nat.lt_of_not_le hlength) ?_
      rw [Number.toInt?_eq_some_iff] at hn
      rw [hn, ← Int.cast_natCast, Int.toNat_of_nonneg (Int.not_lt.1 hnonneg)]

/-- An index without an item is refused by a message that shows it. -/
theorem item_eq_fail (h : ∀ k < items.length, index.value? ≠ some ((k : ℚ) : NumberLine))
    {shown : String} (hshown : index.display = .ok shown) :
    item items index place = Action.fail (.indexRange shown items.length) place := by
  simp only [item, item_not_found h, hshown]

theorem item_eq_stop (h : ∀ k < items.length, index.value? ≠ some ((k : ℚ) : NumberLine))
    {cause : Breakdown} (hcause : index.display = .error cause) :
    item items index place = Action.stop (.breakdown cause) := by
  simp only [item, item_not_found h, hcause]

/-- What applying length and element comes to.  An array has its length.  A number selects the item
    whose place is its exact value, and every other number is refused: the message shows it, which
    an integer of too many digits breaks down at.  What is no array and, as an index, no number is
    a mistake of its kind.  All mistakes are at the place of the application, and the store stays as
    it is. -/
theorem elements_outcomes (limits : Limits) (place : Option Span) (home : ScopeId) (store : Store) :
    let outcome (function : Builtin) (arguments : List Value) :=
      limits.apply place (.builtin function home) arguments store
    (∀ items : List Value, outcome length [.array items] = (.ok (.int items.length), store)) ∧
      (∀ (items : List Value) (index : Number),
        (∀ (k : Nat) (value : Value), items[k]? = some value →
          index.value? = some ((k : ℚ) : NumberLine) →
          outcome element [.array items, .number index] = (.ok value, store)) ∧
        ((∀ k < items.length, index.value? ≠ some ((k : ℚ) : NumberLine)) →
          (¬(Value.number index).Long → ∃ shown, index.display = .ok shown ∧
            outcome element [.array items, .number index] =
              (.error (.mistake (.indexRange shown items.length) place), store)) ∧
          ((Value.number index).Long →
            outcome element [.array items, .number index] =
              (.error (.breakdown .longInteger), store)))) ∧
      (∀ value index : Value, (∀ items, value ≠ .array items) →
        outcome length [value] = (.error (.mistake (.lengthOf value.kind) place), store) ∧
          outcome element [value, index] =
            (.error (.mistake (.elementOf value.kind) place), store)) ∧
      ∀ (items : List Value) (index : Value), (∀ n, index ≠ .number n) →
        outcome element [.array items, index] =
          (.error (.mistake (.indexKind index.kind) place), store) := by
  refine ⟨fun items => rfl, fun items index => ⟨?_, fun h => ⟨?_, ?_⟩⟩, ?_, ?_⟩
  · intro k value hvalue hindex
    exact congrFun (item_eq_pure hvalue hindex) store
  · intro hshort
    obtain ⟨shown, hshown⟩ : ∃ shown, index.display = .ok shown := by
      cases hdisplay : index.display with
      | ok shown => exact ⟨shown, rfl⟩
      | error cause => exact absurd (Number.display_eq_error.1 hdisplay).1 hshort
    exact ⟨shown, hshown, congrFun (item_eq_fail h hshown) store⟩
  · intro hlong
    exact congrFun (item_eq_stop h (Number.display_eq_error.2 ⟨hlong, rfl⟩)) store
  · intro value index hvalue
    cases value with
    | array items => exact absurd rfl (hvalue items)
    | _ => exact ⟨rfl, rfl⟩
  · intro items index hindex
    cases index with
    | number n => exact absurd rfl (hindex n)
    | _ => rfl

/-- The least integer too long to be shown is an index that the refusal breaks down at. -/
theorem elements_outcomes_long :
    (Value.int tooLong).Long ∧ ∀ limits place home store,
      Limits.apply limits place (.builtin element home) [.array [.int 1], .int tooLong] store =
        (.error (.breakdown .longInteger), store) := by
  have hlong : (Value.int tooLong).Long := .int (Int.natAbs_natCast tooLong).ge
  refine ⟨hlong, fun limits place home store => ?_⟩
  refine (((elements_outcomes limits place home store).2.1 [.int 1] (.int tooLong)).2 ?_).2 hlong
  intro k hk hindex
  obtain rfl : k = 0 := Nat.lt_one_iff.1 hk
  have hzero : tooLong = 0 := by
    have hcast := WithBotTop.coe_injective (Option.some.inj hindex)
    exact_mod_cast hcast
  exact absurd hzero (by decide +kernel)

end Builtin

end CallLang
