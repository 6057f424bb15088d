/-
  CallLang/Proofs/Decimals.lean
  =============================
  **Reading back what is written.**

  However a decimal is laid out, the reader of decimal notation gives back a decimal of
  the same value.  So the text of a double determines its decimal, and with it the
  double.
-/
import CallLang.Proofs.Lexing
import CallLang.Proofs.Shortest

namespace CallLang

/-! ### Digits -/

namespace Text

theorem digitsValue_eq (digits : List Char) :
    digitsValue digits = Nat.ofDigitChars 10 digits 0 := by
  rw [digitsValue, Nat.ofDigitChars_eq_foldl]
  simp only [Nat.mul_comm]

theorem digitsValue_append (digits more : List Char) :
    digitsValue (digits ++ more) = digitsValue digits * 10 ^ more.length + digitsValue more := by
  rw [digitsValue_eq, digitsValue_eq, digitsValue_eq, Nat.ofDigitChars_append,
    Nat.ofDigitChars_eq_ofDigitChars_zero, Nat.mul_comm]

theorem digitsValue_replicate (n : Nat) : digitsValue (List.replicate n '0') = 0 := by
  rw [digitsValue_eq, Nat.ofDigitChars_replicate_zero, Nat.mul_zero]

theorem digitsValue_zeroPadded (width : Nat) (digits : List Char) :
    digitsValue (zeroPadded width digits) = digitsValue digits := by
  rw [zeroPadded, digitsValue_append, digitsValue_replicate, Nat.zero_mul, Nat.zero_add]

theorem digitsValue_repr (n : Nat) : digitsValue (Nat.repr n).toList = n := by
  rw [digitsValue_eq, Nat.toList_repr, Nat.ofDigitChars_ten_toDigits]

/-- A numeral: digits, and one of them at least. -/
structure Numeral (digits : List Char) : Prop where
  ne_nil : digits ≠ []
  isDigit : ∀ c ∈ digits, c.isDigit = true

theorem numeral_repr (n : Nat) : Numeral (Nat.repr n).toList := by
  rw [Nat.toList_repr]
  exact ⟨Nat.toDigits_ne_nil, fun c hc => Nat.isDigit_of_mem_toDigits (by decide) (by decide) hc⟩

theorem isDigit_of_mem_zeros {n : Nat} : ∀ c ∈ List.replicate n '0', c.isDigit = true := by
  intro c hc
  rw [List.eq_of_mem_replicate hc]
  decide

theorem Numeral.exists_cons {digits : List Char} (h : Numeral digits) :
    ∃ c rest, digits = c :: rest ∧ c.isDigit = true := by
  obtain ⟨c, rest, rfl⟩ := List.exists_cons_of_ne_nil h.ne_nil
  exact ⟨c, rest, rfl, h.isDigit c List.mem_cons_self⟩

theorem Numeral.append {digits more : List Char} (h : Numeral digits)
    (hmore : ∀ c ∈ more, c.isDigit = true) : Numeral (digits ++ more) := by
  refine ⟨fun heq => h.ne_nil (List.append_eq_nil_iff.1 heq).1, fun c hc => ?_⟩
  rcases List.mem_append.1 hc with hc | hc
  · exact h.isDigit c hc
  · exact hmore c hc

theorem Numeral.take {digits : List Char} (h : Numeral digits) {n : Nat} (hn : 0 < n) :
    Numeral (digits.take n) := by
  refine ⟨?_, fun c hc => h.isDigit c (List.mem_of_mem_take hc)⟩
  rw [ne_eq, List.take_eq_nil_iff]
  exact not_or.2 ⟨hn.ne', h.ne_nil⟩

theorem Numeral.zeroPadded {digits : List Char} (h : Numeral digits) (width : Nat) :
    Numeral (Text.zeroPadded width digits) := by
  refine ⟨fun heq => h.ne_nil (List.append_eq_nil_iff.1 heq).2, fun c hc => ?_⟩
  rcases List.mem_append.1 hc with hc | hc
  · exact isDigit_of_mem_zeros c hc
  · exact h.isDigit c hc

end Text

namespace Double

open Text (Numeral digitsValue)

/-! ### Reading -/

theorem readExponent?_write (width : Nat) (n : Int) :
    readExponent? ('e' :: (if n < 0 then '-' else '+') ::
      Text.zeroPadded width (Nat.repr n.natAbs).toList) = some n := by
  obtain ⟨hne, hdigits⟩ := (Text.numeral_repr n.natAbs).zeroPadded width
  have hvalue : digitsValue (Text.zeroPadded width (Nat.repr n.natAbs).toList) = n.natAbs := by
    rw [Text.digitsValue_zeroPadded, Text.digitsValue_repr]
  generalize Text.zeroPadded width (Nat.repr n.natAbs).toList = digits at *
  have hall : digits.all Char.isDigit = true := List.all_eq_true.2 hdigits
  have hempty : digits.isEmpty = false := by simpa using hne
  by_cases hn : n < 0
  · simp [readExponent?, hn, hall, hempty, hvalue, abs_of_neg]
  · simp [readExponent?, hn, hall, hempty, hvalue, abs_of_nonneg (Int.not_lt.1 hn)]

theorem readDecimal?_point {whole places rest : List Char} {exponent : Int}
    (hwhole : Numeral whole) (hplaces : ∀ c ∈ places, c.isDigit = true)
    (hrest : ∀ c, rest.head? = some c → c.isDigit = false)
    (hexponent : readExponent? rest = some exponent) :
    readDecimal? (whole ++ '.' :: (places ++ rest)) =
      some ⟨digitsValue (whole ++ places), exponent - places.length⟩ := by
  have hpoint : ∀ c, ('.' :: (places ++ rest)).head? = some c → c.isDigit = false := by
    rintro c ⟨rfl⟩
    decide
  have hempty : whole.isEmpty = false := by simpa using hwhole.ne_nil
  simp [readDecimal?, Grammar.takeWhile_run hwhole.isDigit hpoint,
    Grammar.dropWhile_run hwhole.isDigit hpoint, Grammar.takeWhile_run hplaces hrest,
    Grammar.dropWhile_run hplaces hrest, hempty, hexponent]

/-- Digits around a point with nothing behind them. -/
theorem readDecimal?_plain {whole places : List Char} (hwhole : Numeral whole)
    (hplaces : ∀ c ∈ places, c.isDigit = true) :
    readDecimal? (whole ++ '.' :: places) =
      some ⟨digitsValue (whole ++ places), -places.length⟩ := by
  have hend : ∀ c, ([] : List Char).head? = some c → c.isDigit = false := by rintro c ⟨⟩
  have hread := readDecimal?_point hwhole hplaces hend rfl
  rwa [List.append_nil, zero_sub] at hread

theorem readDecimal?_whole {whole rest : List Char} {exponent : Int} (hwhole : Numeral whole)
    (hrest : ∀ c, rest.head? = some c → c.isDigit = false ∧ c ≠ '.')
    (hexponent : readExponent? rest = some exponent) :
    readDecimal? (whole ++ rest) = some ⟨digitsValue whole, exponent⟩ := by
  have hstop : ∀ c, rest.head? = some c → c.isDigit = false := fun c hc => (hrest c hc).1
  have hempty : whole.isEmpty = false := by simpa using hwhole.ne_nil
  unfold readDecimal?
  rw [Grammar.takeWhile_run hwhole.isDigit hstop, Grammar.dropWhile_run hwhole.isDigit hstop]
  split
  next places after hsplit =>
    split at hsplit
    · next other => exact absurd rfl (hrest '.' rfl).2
    · cases hsplit
      simp [hempty, hexponent]

/-! ### Layouts -/

/-- An exponent as it is written. -/
def exponentText (width : Nat) (exponent : Int) : List Char :=
  'e' :: (if exponent < 0 then '-' else '+') ::
    Text.zeroPadded width (Nat.repr exponent.natAbs).toList

/-- Whether a text is decimal notation for a value: digits around a point, or digits around a
    point that is left out if nothing follows it, and an exponent. -/
inductive Notates (value : ℚ) : List Char → Prop where
  | plain {whole places : List Char} (hwhole : Numeral whole)
      (hplaces : ∀ c ∈ places, c.isDigit = true)
      (hvalue : digitsValue (whole ++ places) * 10 ^ (-places.length : Int) = value) :
      Notates value (whole ++ '.' :: places)
  | exponent {whole places : List Char} (width : Nat) (exponent : Int) (hwhole : Numeral whole)
      (hplaces : ∀ c ∈ places, c.isDigit = true)
      (hvalue : digitsValue (whole ++ places) * 10 ^ (exponent - places.length) = value) :
      Notates value
        (whole ++ (if places.isEmpty then [] else '.' :: places) ++ exponentText width exponent)

/-- What is written in a layout is decimal notation for the decimal. -/
theorem notates_write (layout : Layout) (decimal : Decimal) :
    Notates decimal.value (decimal.write layout) := by
  have hdigits := Text.numeral_repr decimal.coefficient
  have hvalue := Text.digitsValue_repr decimal.coefficient
  unfold Decimal.write
  rw [Decimal.value]
  generalize (Nat.repr decimal.coefficient).toList = digits at *
  generalize decimal.coefficient = coefficient at *
  generalize decimal.exponent = exponent at *
  subst hvalue
  have hlength : 1 ≤ digits.length := List.length_pos_iff.2 hdigits.ne_nil
  dsimp only
  split
  · split
    · next hexponent =>
        obtain ⟨zeros, rfl⟩ := Int.eq_ofNat_of_zero_le hexponent
        have hzero : ∀ c ∈ ['0'], c.isDigit = true := by simp
        rw [Int.toNat_natCast]
        refine .plain (hdigits.append Text.isDigit_of_mem_zeros) hzero ?_
        have hnat : digitsValue (digits ++ List.replicate zeros '0' ++ ['0']) =
            digitsValue digits * 10 ^ zeros * 10 := by
          rw [Text.digitsValue_append, Text.digitsValue_append, Text.digitsValue_replicate,
            List.length_replicate, Nat.add_zero]
          rfl
        rw [hnat]
        push_cast
        simp
    · next hexponent =>
        obtain ⟨places, rfl⟩ : ∃ places : Nat, exponent = -places :=
          ⟨exponent.natAbs, by omega⟩
        have hplaces : (- -(places : Int)).toNat = places := by omega
        have hpadded := hdigits.zeroPadded (places + 1)
        have hvalue := Text.digitsValue_zeroPadded (places + 1) digits
        have hlong : places + 1 ≤ (Text.zeroPadded (places + 1) digits).length := by
          rw [Text.zeroPadded, List.length_append, List.length_replicate]
          omega
        rw [hplaces]
        generalize Text.zeroPadded (places + 1) digits = padded at *
        refine .plain (hpadded.take (by omega))
          (fun c hc => hpadded.isDigit c (List.mem_of_mem_drop hc)) ?_
        have hbehind : padded.length - (padded.length - places) = places := by omega
        rw [List.take_append_drop, hvalue, List.length_drop, hbehind]
  · refine .exponent layout.exponentDigits _ (hdigits.take Nat.one_pos)
      (fun c hc => hdigits.isDigit c (List.mem_of_mem_drop hc)) ?_
    have hplace : exponent + digits.length - 1 - (digits.length - 1 : Nat) = exponent := by omega
    rw [List.take_append_drop, List.length_drop, hplace]

variable {value : ℚ} {text : List Char}

/-- Decimal notation is read as its value. -/
theorem Notates.read (h : Notates value text) :
    ∃ decimal, readDecimal? text = some decimal ∧ decimal.value = value := by
  cases h with
  | @plain whole places hwhole hplaces hvalue =>
      exact ⟨_, readDecimal?_plain hwhole hplaces, hvalue⟩
  | @exponent whole places width exponent hwhole hplaces hvalue =>
      have hread := readExponent?_write width exponent
      have hstop : ∀ c, (exponentText width exponent).head? = some c →
          c.isDigit = false ∧ c ≠ '.' := by
        rintro c ⟨rfl⟩
        decide
      cases places with
      | nil =>
          rw [List.append_nil, List.length_nil, Nat.cast_zero, sub_zero] at hvalue
          rw [List.isEmpty_nil, if_pos rfl, List.append_nil]
          exact ⟨_, readDecimal?_whole hwhole hstop hread, hvalue⟩
      | cons c places =>
          rw [List.isEmpty_cons, if_neg Bool.false_ne_true, List.append_assoc, List.cons_append]
          exact ⟨_, readDecimal?_point hwhole hplaces (fun c hc => (hstop c hc).1) hread, hvalue⟩

/-- Whether a character can occur in decimal notation: a digit, the point, the letter of an
    exponent or a sign. -/
def Notes (c : Char) : Prop :=
  c.isDigit = true ∨ c = '.' ∨ c = 'e' ∨ c = '+' ∨ c = '-'

instance : DecidablePred Notes := fun c =>
  inferInstanceAs (Decidable (c.isDigit = true ∨ c = '.' ∨ c = 'e' ∨ c = '+' ∨ c = '-'))

theorem notes_of_mem_exponentText {width : Nat} {exponent : Int} :
    ∀ c ∈ exponentText width exponent, Notes c := by
  intro c hc
  have hdigits := ((Text.numeral_repr exponent.natAbs).zeroPadded width).isDigit
  rcases List.mem_cons.1 hc with rfl | hc
  · exact .inr (.inr (.inl rfl))
  · rcases List.mem_cons.1 hc with rfl | hc
    · split
      · exact .inr (.inr (.inr (.inr rfl)))
      · exact .inr (.inr (.inr (.inl rfl)))
    · exact .inl (hdigits c hc)

/-- Decimal notation begins with a digit, and the numeral is not all of it. -/
theorem Notates.shape (h : Notates value text) :
    (∃ c rest, text = c :: rest ∧ c.isDigit = true) ∧ ('.' ∈ text ∨ 'e' ∈ text) ∧
      ∀ c ∈ text, Notes c := by
  cases h with
  | @plain whole places hwhole hplaces _ =>
      obtain ⟨first, rest, hfirst, hdigit⟩ := hwhole.exists_cons
      refine ⟨⟨first, rest ++ '.' :: places, by rw [hfirst, List.cons_append], hdigit⟩,
        .inl (by simp), fun c hc => ?_⟩
      rcases List.mem_append.1 hc with hc | hc
      · exact .inl (hwhole.isDigit c hc)
      · rcases List.mem_cons.1 hc with rfl | hc
        · exact .inr (.inl rfl)
        · exact .inl (hplaces c hc)
  | @exponent whole places width exponent hwhole hplaces _ =>
      obtain ⟨first, rest, hfirst, hdigit⟩ := hwhole.exists_cons
      refine ⟨⟨first, _, by rw [hfirst, List.append_assoc, List.cons_append], hdigit⟩,
        .inr (by simp [exponentText]), fun c hc => ?_⟩
      rcases List.mem_append.1 hc with hc | hc
      · rcases List.mem_append.1 hc with hc | hc
        · exact .inl (hwhole.isDigit c hc)
        · split at hc
          · cases hc
          · rcases List.mem_cons.1 hc with rfl | hc
            · exact .inr (.inl rfl)
            · exact .inl (hplaces c hc)
      · exact notes_of_mem_exponentText c hc

end Double

end CallLang
