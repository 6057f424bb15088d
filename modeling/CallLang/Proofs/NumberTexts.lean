/-
  CallLang/Proofs/NumberTexts.lean
  ================================
  **The texts of numbers.**

  A number is shown as the integer that it is, or else as a double in decimal notation,
  which shows a point, an exponent or the letters of infinity and so is the text of no
  integer.  Two numbers therefore have one text exactly if they are equal: an integer
  and the double without fractional part that equals it are shown alike, and nothing
  else is.
-/
import CallLang.Proofs.Decimals
import CallLang.Proofs.Display
import CallLang.Proofs.NumberLine

namespace CallLang

open Text (Numeral)

/-! ### Signs -/

/-- A minus sign is told from what follows it. -/
theorem sign_inj {negative negative' : Bool} {text text' : List Char} (h : text.head? ≠ some '-')
    (h' : text'.head? ≠ some '-')
    (heq : (if negative then '-' :: text else text) = if negative' then '-' :: text' else text') :
    negative = negative' ∧ text = text' := by
  cases negative <;> cases negative' <;>
    simp only [Bool.false_eq_true, if_false, if_true] at heq
  · exact ⟨rfl, heq⟩
  · exact absurd (heq ▸ rfl) h
  · exact absurd (heq ▸ rfl) h'
  · exact ⟨rfl, (List.cons.inj heq).2⟩

/-! ### Integers -/

theorem Text.toList_ofInt (n : Int) :
    (ofInt n).toList =
      if decide (n < 0) then '-' :: (Nat.repr n.natAbs).toList else (Nat.repr n.natAbs).toList := by
  unfold ofInt
  by_cases h : n < 0
  · simp [h]
  · simp [h]

theorem Text.Numeral.head?_ne_minus {digits : List Char} (h : Numeral digits) :
    digits.head? ≠ some '-' := by
  obtain ⟨c, rest, rfl, hc⟩ := h.exists_cons
  rintro ⟨rfl⟩
  exact absurd hc (by decide)

theorem Text.ofInt_inj {m n : Int} (h : ofInt m = ofInt n) : m = n := by
  have hlist := congrArg String.toList h
  rw [toList_ofInt, toList_ofInt] at hlist
  obtain ⟨hsign, hdigits⟩ :=
    sign_inj (numeral_repr _).head?_ne_minus (numeral_repr _).head?_ne_minus hlist
  have habs : m.natAbs = n.natAbs := Nat.repr_inj.1 (String.toList_inj.1 hdigits)
  have hsign' : m < 0 ↔ n < 0 := decide_eq_decide.1 hsign
  omega

theorem Text.mem_ofInt {n : Int} : ∀ c ∈ (ofInt n).toList, c.isDigit = true ∨ c = '-' := by
  intro c hc
  have hdigits := (numeral_repr n.natAbs).isDigit
  rw [toList_ofInt] at hc
  split at hc
  · rcases List.mem_cons.1 hc with rfl | hc
    · exact .inr rfl
    · exact .inl (hdigits c hc)
  · exact .inl (hdigits c hc)

/-! ### Doubles -/

namespace Double

/-- What is written of a double apart from its sign. -/
def magnitudeText : Double → List Char
  | .nan => ['n', 'a', 'n']
  | .infinite _ => ['i', 'n', 'f']
  | .finite _ units _ => if units = 0 then ['0', '.', '0'] else (shortest units).write Layout.double

def isNegative : Double → Bool
  | .nan => false
  | .infinite negative => negative
  | .finite negative _ _ => negative

theorem toList_write (x : Double) :
    x.write.toList = if x.isNegative then '-' :: x.magnitudeText else x.magnitudeText := by
  cases x with
  | nan => rfl
  | infinite negative => cases negative <;> rfl
  | finite negative units _ => exact String.toList_ofList

/-- Whether a double is a number with a fractional part or infinite. -/
structure Fractional (x : Double) : Prop where
  ne_nan : x ≠ .nan
  toInt? : x.toInt? = none

theorem Fractional.units {negative : Bool} {units : Nat} {h : Representable units}
    (hx : Fractional (.finite negative units h)) : units % one ≠ 0 ∧ units ≠ 0 := by
  have hnone := hx.toInt?
  simp only [Double.toInt?] at hnone
  split at hnone
  · cases hnone
  · next hrest =>
      refine ⟨hrest, ?_⟩
      rintro rfl
      exact hrest (Nat.zero_mod one)

/-- The text of a double with a fractional part, or infinite, begins with a digit or a letter, and
    some character in it stands in no integer. -/
theorem Fractional.shape {x : Double} (hx : x.Fractional) :
    (∃ c rest, x.magnitudeText = c :: rest ∧ (c.isDigit = true ∨ c = 'i')) ∧
      (∃ c ∈ x.magnitudeText, c.isDigit = false ∧ c ≠ '-') ∧
      ∀ c ∈ x.magnitudeText, Notes c ∨ c ∈ ['i', 'n', 'f'] := by
  cases x with
  | nan => exact absurd rfl hx.ne_nan
  | infinite negative =>
      exact ⟨⟨'i', _, rfl, .inr rfl⟩, ⟨'n', by simp [magnitudeText], by decide⟩,
        fun c hc => .inr hc⟩
  | finite negative units h =>
      have hzero := hx.units.2
      obtain ⟨⟨c, rest, hcons, hdigit⟩, hmark, hall⟩ :=
        (notates_write Layout.double (shortest units)).shape
      rw [magnitudeText, if_neg hzero]
      refine ⟨⟨c, rest, hcons, .inl hdigit⟩, ?_, fun c hc => .inl (hall c hc)⟩
      rcases hmark with hmark | hmark
      · exact ⟨'.', hmark, by decide⟩
      · exact ⟨'e', hmark, by decide⟩

theorem Fractional.head?_ne_minus {x : Double} (hx : x.Fractional) :
    x.magnitudeText.head? ≠ some '-' := by
  obtain ⟨⟨c, rest, hcons, hfirst⟩, -⟩ := hx.shape
  rw [hcons]
  rintro ⟨rfl⟩
  revert hfirst
  decide

theorem eq_of_write_shortest {u v : Nat} (hu : Representable u) (hv : Representable v) (hu' : u ≠ 0)
    (hv' : v ≠ 0) {layout : Layout} (h : (shortest u).write layout = (shortest v).write layout) :
    u = v := by
  obtain ⟨decimal, hread, hvalue⟩ := (notates_write layout (shortest u)).read
  obtain ⟨decimal', hread', hvalue'⟩ := (notates_write layout (shortest v)).read
  rw [h, hread'] at hread
  obtain rfl := Option.some.inj hread
  exact eq_of_shortest hu hv hu' hv' (hvalue.symm.trans hvalue')

/-- The letters of infinity are no decimal notation. -/
theorem infinite_ne_write (layout : Layout) (decimal : Decimal) :
    ['i', 'n', 'f'] ≠ decimal.write layout := by
  obtain ⟨⟨c, rest, hcons, hdigit⟩, -⟩ := (notates_write layout decimal).shape
  rw [hcons]
  intro heq
  rw [← (List.cons.inj heq).1] at hdigit
  exact absurd hdigit (by decide)

/-- Different doubles have different texts, fractional parts given. -/
theorem Fractional.write_inj {x y : Double} (hx : x.Fractional) (hy : y.Fractional)
    (h : x.write = y.write) : x = y := by
  have hlist := congrArg String.toList h
  rw [toList_write, toList_write] at hlist
  obtain ⟨hsign, hmagnitude⟩ := sign_inj hx.head?_ne_minus hy.head?_ne_minus hlist
  cases x with
  | nan => exact absurd rfl hx.ne_nan
  | infinite negative =>
      cases y with
      | nan => exact absurd rfl hy.ne_nan
      | infinite negative' => exact congrArg infinite hsign
      | finite negative' units' h' =>
          rw [magnitudeText, magnitudeText, if_neg hy.units.2] at hmagnitude
          exact absurd hmagnitude (infinite_ne_write _ _)
  | finite negative units hunits =>
      cases y with
      | nan => exact absurd rfl hy.ne_nan
      | infinite negative' =>
          rw [magnitudeText, magnitudeText, if_neg hx.units.2] at hmagnitude
          exact absurd hmagnitude.symm (infinite_ne_write _ _)
      | finite negative' units' hunits' =>
          rw [magnitudeText, magnitudeText, if_neg hx.units.2, if_neg hy.units.2] at hmagnitude
          obtain rfl := eq_of_write_shortest hunits hunits' hx.units.2 hy.units.2 hmagnitude
          obtain rfl : negative = negative' := hsign
          rfl

/-- No integer has the text of a double with a fractional part. -/
theorem Fractional.write_ne_ofInt {x : Double} (hx : x.Fractional) (n : Int) :
    x.write ≠ Text.ofInt n := by
  obtain ⟨-, ⟨c, hc, hdigit, hminus⟩, -⟩ := hx.shape
  intro heq
  have hmem : c ∈ x.write.toList := by
    rw [toList_write]
    split
    · exact List.mem_cons_of_mem _ hc
    · exact hc
  rw [heq] at hmem
  rcases Text.mem_ofInt c hmem with h | h
  · rw [h] at hdigit
    cases hdigit
  · exact hminus h

/-! ### Places on the line of numbers -/

/-- A double with a fractional part has the place of no integer. -/
theorem Fractional.rank?_ne_int {x : Double} (hx : x.Fractional) (n : Int) :
    x.rank? ≠ some (.at (n * one)) := by
  rw [ne_eq, ← toInt?_eq_some_iff, hx.toInt?]
  exact nofun

theorem signed_inj {negative negative' : Bool} {u v : Nat} (hu : u ≠ 0)
    (h : signed negative u = signed negative' v) : negative = negative' ∧ u = v := by
  have hunits := congrArg Int.natAbs h
  rw [natAbs_signed, natAbs_signed] at hunits
  refine ⟨?_, hunits⟩
  cases negative <;> cases negative' <;> simp [signed] at h ⊢ <;> omega

theorem Fractional.rank?_inj {x y : Double} (hx : x.Fractional) (hy : y.Fractional)
    (h : x.rank? = y.rank?) : x = y := by
  cases x with
  | nan => exact absurd rfl hx.ne_nan
  | infinite negative =>
      cases y with
      | nan => exact absurd rfl hy.ne_nan
      | infinite negative' => cases negative <;> cases negative' <;> first | rfl | cases h
      | finite negative' v hv => cases negative <;> cases h
  | finite negative u hu =>
      cases y with
      | nan => exact absurd rfl hy.ne_nan
      | infinite negative' => cases negative' <;> cases h
      | finite negative' v hv =>
          obtain ⟨rfl, rfl⟩ := signed_inj hx.units.2 (Rank.at.inj (Option.some.inj h))
          rfl

theorem Fractional.exists_rank? {x : Double} (hx : x.Fractional) :
    ∃ place, x.rank? = some place := by
  cases x with
  | nan => exact absurd rfl hx.ne_nan
  | _ => exact ⟨_, rfl⟩

end Double

/-! ### Numbers -/

namespace Number

/-- A number is shown as the integer that it is, or as a double with a fractional part. -/
inductive Shown (number : Number) : String → Prop where
  | int {n : Int} (hplace : number.rank? = some (.at (n * Double.one))) :
      Shown number (Text.ofInt n)
  | double {x : Double} (hx : x.Fractional) (hnumber : number = .double x) : Shown number x.write

theorem shown_of_display {number : Number} (hnumber : number ≠ .double .nan) {text : String}
    (h : number.display = .ok text) : number.Shown text := by
  have hint : ∀ {n : Int}, writeInt n = .ok text → Text.ofInt n = text := by
    intro n hn
    unfold writeInt at hn
    split at hn
    · exact Except.ok.inj hn
    · cases hn
  cases number with
  | int n =>
      rw [← hint h]
      exact .int rfl
  | double x =>
      simp only [display] at h
      split at h
      · next n hn =>
          rw [← hint h]
          exact .int (Double.toInt?_eq_some_iff.1 hn)
      · next hn =>
          obtain rfl := Except.ok.inj h
          exact .double ⟨fun heq => hnumber (heq ▸ rfl), hn⟩ rfl

/-- The text of a number begins with a digit, a minus sign or the letter of infinity. -/
theorem Shown.first {number : Number} {text : String} (h : number.Shown text) :
    ∃ c rest, text.toList = c :: rest ∧ (c.isDigit = true ∨ c = '-' ∨ c = 'i') := by
  cases h with
  | @int n _ =>
      rw [Text.toList_ofInt]
      split
      · exact ⟨'-', _, rfl, .inr (.inl rfl)⟩
      · obtain ⟨c, rest, hcons, hdigit⟩ := (Text.numeral_repr n.natAbs).exists_cons
        exact ⟨c, rest, hcons, .inl hdigit⟩
  | @double x hx _ =>
      rw [Double.toList_write]
      split
      · exact ⟨'-', _, rfl, .inr (.inl rfl)⟩
      · obtain ⟨⟨c, rest, hcons, hfirst⟩, -⟩ := hx.shape
        exact ⟨c, rest, hcons, hfirst.imp_right .inr⟩

theorem Shown.notes {number : Number} {text : String} (h : number.Shown text) :
    ∀ c ∈ text.toList, Double.Notes c ∨ c ∈ ['i', 'n', 'f'] := by
  intro c hc
  cases h with
  | int _ =>
      rcases Text.mem_ofInt c hc with hdigit | rfl
      · exact .inl (.inl hdigit)
      · exact .inl (.inr (.inr (.inr (.inr rfl))))
  | @double x hx _ =>
      obtain ⟨-, -, hall⟩ := hx.shape
      rw [Double.toList_write] at hc
      split at hc
      · rcases List.mem_cons.1 hc with rfl | hc
        · exact .inl (.inr (.inr (.inr (.inr rfl))))
        · exact hall c hc
      · exact hall c hc

/-- Two numbers have one text exactly if they are equal. -/
theorem Shown.text_eq_iff {m n : Number} {text text' : String} (hm : m.Shown text)
    (hn : n.Shown text') : text = text' ↔ m.equal n = true := by
  rw [equal_iff]
  cases hm with
  | @int a ha =>
      cases hn with
      | @int b hb =>
          rw [ha, hb]
          constructor
          · intro heq
            rw [Text.ofInt_inj heq]
            exact ⟨_, rfl, rfl⟩
          · rintro ⟨place, hplace, hplace'⟩
            have hunits := Rank.at.inj (Option.some.inj (hplace.trans hplace'.symm))
            have hone : (Double.one : Int) ≠ 0 := by exact_mod_cast Double.one_pos.ne'
            rw [Int.eq_of_mul_eq_mul_right hone hunits]
      | @double y hy hnumber =>
          constructor
          · exact fun heq => absurd heq.symm (hy.write_ne_ofInt a)
          · rintro ⟨place, hplace, hplace'⟩
            rw [hnumber] at hplace'
            exact absurd (hplace'.trans (hplace.symm.trans ha)) (hy.rank?_ne_int a)
  | @double x hx hnumber =>
      cases hn with
      | @int b hb =>
          constructor
          · exact fun heq => absurd heq (hx.write_ne_ofInt b)
          · rintro ⟨place, hplace, hplace'⟩
            rw [hnumber] at hplace
            exact absurd (hplace.trans (hplace'.symm.trans hb)) (hx.rank?_ne_int b)
      | @double y hy hnumber' =>
          rw [hnumber, hnumber']
          constructor
          · intro heq
            obtain rfl := hx.write_inj hy heq
            obtain ⟨place, hplace⟩ := hx.exists_rank?
            exact ⟨place, hplace, hplace⟩
          · rintro ⟨place, hplace, hplace'⟩
            rw [hx.rank?_inj hy (hplace.trans hplace'.symm)]

end Number

end CallLang
