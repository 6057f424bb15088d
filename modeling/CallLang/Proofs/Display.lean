/-
  CallLang/Proofs/Display.lean
  ============================
  **What cannot be shown or compared.**

  A value cannot be shown if it is nested too deep for the limit, or if it is or
  contains an integer of too many digits; it cannot be compared if it is nested too
  deep.  Where a limit is kept to, larger limits change nothing.
-/
import CallLang.Proofs.Doubles
import CallLang.Value.Display
import CallLang.Value.Equality

namespace CallLang

/-! ### Rows -/

section Rows

variable {ε α β : Type} {f g : α → Except ε β} {items : List α} {e : ε}

theorem exists_of_mapM_error (h : items.mapM f = .error e) : ∃ a ∈ items, f a = .error e := by
  induction items with
  | nil => cases h
  | cons a items ih =>
      rw [List.mapM_cons] at h
      cases hfa : f a with
      | error other =>
          rw [hfa] at h
          obtain rfl := Except.error.inj h
          exact ⟨a, List.mem_cons_self, hfa⟩
      | ok b =>
          rw [hfa] at h
          have hitems : items.mapM f = .error e := by
            cases hrest : items.mapM f with
            | ok bs =>
                rw [hrest] at h
                cases h
            | error other =>
                rw [hrest] at h
                exact congrArg Except.error (Except.error.inj h)
          obtain ⟨other, hmem, hother⟩ := ih hitems
          exact ⟨other, List.mem_cons_of_mem a hmem, hother⟩

theorem ok_of_mapM_ok {bs : List β} (h : items.mapM f = .ok bs) : ∀ a ∈ items, ∃ b, f a = .ok b := by
  induction items generalizing bs with
  | nil => exact fun _ hmem => by cases hmem
  | cons a items ih =>
      rw [List.mapM_cons] at h
      cases hfa : f a with
      | error other =>
          rw [hfa] at h
          cases h
      | ok b =>
          rw [hfa] at h
          cases hrest : items.mapM f with
          | error other =>
              rw [hrest] at h
              cases h
          | ok bs =>
              intro other hmem
              rcases List.mem_cons.1 hmem with rfl | hmem
              · exact ⟨b, hfa⟩
              · exact ih hrest other hmem

/-- A function that differs from another only where that fails in one way gives the same row,
    unless the row of the other fails in this way. -/
theorem mapM_of_ne_error (hfg : ∀ a, f a ≠ .error e → g a = f a) (h : items.mapM f ≠ .error e) :
    items.mapM g = items.mapM f := by
  induction items with
  | nil => rfl
  | cons a items ih =>
      rw [List.mapM_cons] at h ⊢
      rw [List.mapM_cons]
      cases hfa : f a with
      | error cause =>
          have hga := hfg a (by
            rw [hfa]
            rintro ⟨rfl⟩
            exact h (by rw [hfa]; rfl))
          rw [hga, hfa]
          rfl
      | ok b =>
          have hga := hfg a (by rw [hfa]; rintro ⟨⟩)
          rw [hga, hfa]
          rw [hfa] at h
          have hitems : items.mapM f ≠ .error e := by
            intro hitems
            rw [hitems] at h
            exact h rfl
          rw [ih hitems]

end Rows

/-! ### Long integers -/

/-- The integer that a double is has no more digits than are written. -/
theorem lt_tooLong_of_toInt? {x : Double} {n : Int} (h : x.toInt? = some n) :
    n.natAbs < tooLong := by
  have hpow : ∀ k m : Nat, k ≤ m → 2 ^ k ≤ Nat.pow 10 m := by
    intro k m hle
    exact Nat.le_trans (Nat.pow_le_pow_left (by decide) k) (Nat.pow_le_pow_right (by decide) hle)
  have hdigits : 1024 ≤ maxDigits := by decide
  unfold tooLong
  exact Nat.lt_of_lt_of_le (Double.natAbs_lt_of_toInt? h) (hpow 1024 maxDigits hdigits)

/-- Whether a value is an integer of more digits than are written, or contains one
    through arrays. -/
inductive Value.Long : Value → Prop where
  | int {n : Int} (h : tooLong ≤ n.natAbs) : Value.Long (.int n)
  | array {items : List Value} {item : Value} (hmem : item ∈ items) (h : item.Long) :
      Value.Long (.array items)

theorem Number.writeInt_eq_error {n : Int} {cause : Breakdown} :
    writeInt n = .error cause ↔ tooLong ≤ n.natAbs ∧ cause = .longInteger := by
  unfold writeInt
  split
  · next h => simp [Nat.not_le.2 h]
  · next h => simp [Nat.le_of_not_lt h, eq_comm]

theorem Number.display_eq_error {number : Number} {cause : Breakdown} :
    number.display = .error cause ↔ (Value.number number).Long ∧ cause = .longInteger := by
  cases number with
  | int n =>
      rw [display, writeInt_eq_error]
      refine and_congr_left fun _ => ⟨.int, ?_⟩
      rintro ⟨h⟩
      exact h
  | double x =>
      have hshort : ¬(Value.double x).Long := by rintro ⟨⟩
      simp only [display, hshort, false_and, iff_false]
      split
      · next n hn =>
          rw [writeInt_eq_error]
          exact fun h => absurd (lt_tooLong_of_toInt? hn) (Nat.not_lt.2 h.1)
      · exact nofun

/-! ### Showing -/

namespace Value

theorem error_of_display {limit : Nat} {nested : Bool} {value : Value} {cause : Breakdown}
    (h : value.display limit nested = .error cause) : cause = .tooDeep ∨ cause = .longInteger := by
  induction limit generalizing nested value with
  | zero => exact .inl (Except.error.inj h).symm
  | succ limit ih =>
      cases value with
      | number number => exact .inr (Number.display_eq_error.1 h).2
      | array items =>
          simp only [display] at h
          cases hitems : items.mapM (display limit true) with
          | ok texts =>
              rw [hitems] at h
              cases h
          | error other =>
              rw [hitems] at h
              obtain rfl := Except.error.inj h
              obtain ⟨item, -, hitem⟩ := exists_of_mapM_error hitems
              exact ih hitem
      | _ => cases h

theorem display_of_le {limit limit' : Nat} (hle : limit ≤ limit') {nested : Bool} {value : Value}
    (h : value.display limit nested ≠ .error .tooDeep) :
    value.display limit' nested = value.display limit nested := by
  induction limit generalizing limit' nested value with
  | zero => exact absurd rfl h
  | succ limit ih =>
      obtain ⟨limit', rfl⟩ := Nat.exists_eq_add_one.2 (Nat.lt_of_lt_of_le (Nat.succ_pos _) hle)
      cases value with
      | array items =>
          simp only [display] at h ⊢
          have hitems : items.mapM (display limit true) ≠ .error .tooDeep := by
            intro hdeep
            rw [hdeep] at h
            exact h rfl
          rw [mapM_of_ne_error (fun a ha => ih (Nat.le_of_succ_le_succ hle) ha) hitems]
      | _ => rfl

/-- A value that is not nested too deep can be shown unless it is or contains a long integer. -/
theorem display_eq_error_iff {limit : Nat} {nested : Bool} {value : Value} {cause : Breakdown}
    (h : value.display limit nested ≠ .error .tooDeep) :
    value.display limit nested = .error cause ↔ value.Long ∧ cause = .longInteger := by
  induction limit generalizing nested value cause with
  | zero => exact absurd rfl h
  | succ limit ih =>
      cases value with
      | number number => exact Number.display_eq_error
      | array items =>
          simp only [display] at h ⊢
          cases hitems : items.mapM (display limit true) with
          | ok texts =>
              have hshort : ¬(Value.array items).Long := by
                intro hlong
                cases hlong with
                | @array _ item hmem hlong =>
                    obtain ⟨text, htext⟩ := ok_of_mapM_ok hitems item hmem
                    have herror := (ih (by rw [htext]; exact nofun)).2 ⟨hlong, rfl⟩
                    rw [htext] at herror
                    cases herror
              simp only [hshort, false_and, iff_false]
              exact nofun
          | error other =>
              rw [hitems] at h
              obtain ⟨item, hmem, hitem⟩ := exists_of_mapM_error hitems
              have hdeep : other ≠ .tooDeep := by
                rintro rfl
                exact h rfl
              have hlong := (ih (by rw [hitem]; rintro ⟨⟩; exact hdeep rfl)).1 hitem
              obtain ⟨hlong, rfl⟩ := hlong
              constructor
              · intro herror
                exact ⟨.array hmem hlong, (Except.error.inj herror).symm⟩
              · rintro ⟨-, rfl⟩
                rfl
      | _ =>
          constructor
          · intro herror
            cases herror
          · rintro ⟨⟨⟩, -⟩

/-! ### Comparing -/

theorem error_of_equal {limit : Nat} {a b : Value} {cause : Breakdown}
    (h : a.equal limit b = .error cause) : cause = .tooDeep := by
  induction limit generalizing a b with
  | zero => exact (Except.error.inj h).symm
  | succ limit ih =>
      have hall : ∀ {as bs : List Value},
          allEqual (equal limit) as bs = .error cause → cause = .tooDeep := by
        intro as bs has
        induction as generalizing bs with
        | nil => cases bs <;> cases has
        | cons x as ihas =>
            cases bs with
            | nil => cases has
            | cons y bs =>
                simp only [allEqual] at has
                split at has
                · exact ihas has
                · exact ih has
      cases a with
      | array as =>
          cases b with
          | array bs =>
              simp only [equal] at h
              split at h
              · exact hall h
              · cases h
          | _ => cases h
      | _ => cases b <;> cases h

theorem equal_of_le {limit limit' : Nat} (hle : limit ≤ limit') {a b : Value}
    (h : a.equal limit b ≠ .error .tooDeep) : a.equal limit' b = a.equal limit b := by
  induction limit generalizing limit' a b with
  | zero => exact absurd rfl h
  | succ limit ih =>
      obtain ⟨limit', rfl⟩ := Nat.exists_eq_add_one.2 (Nat.lt_of_lt_of_le (Nat.succ_pos _) hle)
      have hall : ∀ {as bs : List Value}, allEqual (equal limit) as bs ≠ .error .tooDeep →
          allEqual (equal limit') as bs = allEqual (equal limit) as bs := by
        intro as bs hdeep
        induction as generalizing bs with
        | nil => cases bs <;> rfl
        | cons x as ihas =>
            cases bs with
            | nil => rfl
            | cons y bs =>
                have hxy : x.equal limit y ≠ .error .tooDeep := by
                  intro hxy
                  simp only [allEqual, hxy] at hdeep
                  exact hdeep rfl
                simp only [allEqual, ih (Nat.le_of_succ_le_succ hle) hxy] at hdeep ⊢
                split
                · next heq =>
                    rw [heq] at hdeep
                    exact ihas hdeep
                · rfl
      cases a with
      | array as =>
          cases b with
          | array bs =>
              simp only [equal] at h ⊢
              by_cases hlength : as.length = bs.length
              · rw [if_pos hlength] at h ⊢
                rw [if_pos hlength]
                exact hall h
              · rw [if_neg hlength, if_neg hlength]
          | _ => rfl
      | _ => cases b <;> rfl

end Value

end CallLang
