/-
  CallLang/Proofs/Quotations.lean
  ===============================
  **Quoted texts identify texts.**

  What is written for one character inside of quotation marks can be taken back, without
  knowing what the marks are: a backslash announces either the character that follows it or
  how many digits the code point has.  And only the closing mark begins as the mark does.  So
  a quoted text is told from whatever comes next, and no two texts are quoted alike.

  Which characters are written as they are is of no account for this.
-/
import CallLang.Text.Quoted
import Mathlib.Algebra.Group.Nat.Defs
import Mathlib.Data.List.Basic

namespace CallLang.Text

/-! ### Hexadecimal digits -/

/-- The number that a lower case hexadecimal digit stands for. -/
def hexDigitValue (c : Char) : Nat :=
  if c.toNat < 'a'.toNat then c.toNat - '0'.toNat else c.toNat - 'a'.toNat + 10

/-- The number that hexadecimal digits denote. -/
def hexValue (digits : List Char) : Nat :=
  digits.foldl (fun n c => n * 16 + hexDigitValue c) 0

theorem hexDigitValue_hexDigit {n : Nat} (h : n < 16) : hexDigitValue (hexDigit n) = n := by
  have hall : ∀ n < 16, hexDigitValue (hexDigit n) = n := by decide
  exact hall n h

theorem length_hexDigits (width n : Nat) : (hexDigits width n).length = width := by
  induction width generalizing n with
  | zero => rfl
  | succ width ih => rw [hexDigits, List.length_append, ih, List.length_singleton]

theorem hexValue_hexDigits {width n : Nat} (h : n < 16 ^ width) :
    hexValue (hexDigits width n) = n := by
  induction width generalizing n with
  | zero =>
      obtain rfl : n = 0 := by simpa using h
      rfl
  | succ width ih =>
      have hrest : n / 16 < 16 ^ width := Nat.div_lt_of_lt_mul (Nat.pow_succ' ▸ h)
      rw [hexDigits, hexValue, List.foldl_append, ← hexValue, ih hrest, List.foldl_cons,
        List.foldl_nil, hexDigitValue_hexDigit (Nat.mod_lt n (by decide))]
      omega

/-! ### Characters -/

/-- The character that a backslash announces, and what comes next. -/
def afterBackslash : List Char → Option (Char × List Char)
  | 'n' :: rest => some ('\n', rest)
  | 'r' :: rest => some ('\r', rest)
  | 't' :: rest => some ('\t', rest)
  | 'x' :: rest => some (Char.ofNat (hexValue (rest.take 2)), rest.drop 2)
  | 'u' :: rest => some (Char.ofNat (hexValue (rest.take 4)), rest.drop 4)
  | 'U' :: rest => some (Char.ofNat (hexValue (rest.take 8)), rest.drop 8)
  | c :: rest => some (c, rest)
  | [] => none

/-- Takes one character back from the front of what is written for a text, and leaves what
    comes next. -/
def unescape : List Char → Option (Char × List Char)
  | c :: rest => if c = '\\' then afterBackslash rest else some (c, rest)
  | [] => none

theorem unescape_codePointEscape (c : Char) (rest : List Char) :
    unescape (codePointEscape c.toNat ++ rest) = some (c, rest) := by
  have htaken : ∀ width, c.toNat < 16 ^ width →
      some (Char.ofNat (hexValue ((hexDigits width c.toNat ++ rest).take width)),
        (hexDigits width c.toNat ++ rest).drop width) = some (c, rest) := by
    intro width hwidth
    have hlength := length_hexDigits width c.toNat
    rw [List.take_left' hlength, List.drop_left' hlength, hexValue_hexDigits hwidth,
      Char.ofNat_toNat]
  unfold codePointEscape
  split
  · next hbyte => exact htaken 2 hbyte
  split
  · next hshort => exact htaken 4 hshort
  · exact htaken 8 c.val.toNat_lt

/-- Whether a character may be the mark around a text. -/
def IsMark (mark : Char) : Prop :=
  mark = '\'' ∨ mark = '"'

theorem isMark_quoteMark (text : List Char) : IsMark (quoteMark text) := by
  unfold quoteMark
  split
  · exact .inr rfl
  · exact .inl rfl

variable {mark c d : Char} {cs ds rest rest' : List Char}

theorem unescape_escapeChar (hmark : IsMark mark) (c : Char) (rest : List Char) :
    unescape (escapeChar mark c ++ rest) = some (c, rest) := by
  unfold escapeChar
  split
  · next hc => rcases hmark with rfl | rfl <;> rcases hc with rfl | rfl <;> rfl
  split
  · next hc => rw [hc]; rfl
  split
  · next hc => rw [hc]; rfl
  split
  · next hc => rw [hc]; rfl
  split
  · exact unescape_codePointEscape c rest
  · next hplain _ _ _ _ => exact if_neg (not_or.1 hplain).2

theorem escapeChar_append_inj (hmark : IsMark mark)
    (heq : escapeChar mark c ++ rest = escapeChar mark d ++ rest') : c = d ∧ rest = rest' := by
  have htaken := unescape_escapeChar hmark c rest
  rw [heq, unescape_escapeChar hmark] at htaken
  obtain ⟨rfl, rfl⟩ := Prod.mk.inj (Option.some.inj htaken)
  exact ⟨rfl, rfl⟩

/-- What is written for a character does not begin as the closing mark does. -/
theorem escapeChar_append_ne (hmark : IsMark mark) (c : Char) (rest chars : List Char) :
    escapeChar mark c ++ rest ≠ mark :: chars := by
  intro heq
  have hbackslash : mark ≠ '\\' := by
    rcases hmark with rfl | rfl <;> decide
  have htaken := unescape_escapeChar hmark c rest
  -- only the mark itself could be taken back, and that is written behind a backslash
  rw [heq, unescape, if_neg hbackslash] at htaken
  obtain ⟨rfl, rfl⟩ := Prod.mk.inj (Option.some.inj htaken)
  rw [escapeChar, if_pos (.inl rfl)] at heq
  exact hbackslash (List.cons.inj heq).1.symm

/-! ### Texts -/

theorem flatMap_escapeChar_inj (hmark : IsMark mark)
    (heq : cs.flatMap (escapeChar mark) ++ mark :: rest =
      ds.flatMap (escapeChar mark) ++ mark :: rest') : cs = ds ∧ rest = rest' := by
  induction cs generalizing ds with
  | nil =>
      cases ds with
      | nil => exact ⟨rfl, (List.cons.inj heq).2⟩
      | cons d ds =>
          rw [List.flatMap_cons, List.append_assoc] at heq
          exact absurd heq.symm (escapeChar_append_ne hmark d _ _)
  | cons c cs ih =>
      cases ds with
      | nil =>
          rw [List.flatMap_cons, List.append_assoc] at heq
          exact absurd heq (escapeChar_append_ne hmark c _ _)
      | cons d ds =>
          simp only [List.flatMap_cons, List.append_assoc] at heq
          obtain ⟨rfl, htexts⟩ := escapeChar_append_inj hmark heq
          obtain ⟨rfl, hrest⟩ := ih htexts
          exact ⟨rfl, hrest⟩

theorem toList_quoted (text : String) :
    (quoted text).toList = quoteMark text.toList ::
      (text.toList.flatMap (escapeChar (quoteMark text.toList)) ++ [quoteMark text.toList]) :=
  String.toList_ofList

/-- A quoted text is told from whatever comes next. -/
theorem quoted_append_inj {text text' : String}
    (heq : (quoted text).toList ++ rest = (quoted text').toList ++ rest') :
    text = text' ∧ rest = rest' := by
  rw [toList_quoted, toList_quoted] at heq
  simp only [List.cons_append, List.append_assoc, List.nil_append, List.cons.injEq] at heq
  obtain ⟨hmarks, htexts⟩ := heq
  rw [← hmarks] at htexts
  obtain ⟨hchars, hrest⟩ := flatMap_escapeChar_inj (isMark_quoteMark _) htexts
  exact ⟨String.toList_injective hchars, hrest⟩

end CallLang.Text
