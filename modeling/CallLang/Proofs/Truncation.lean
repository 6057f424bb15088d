/-
  CallLang/Proofs/Truncation.lean
  ===============================
  **Tokens of the beginning of a text.**

  Whether a piece of text ends at some place is decided by the one character
  behind it.  So a text can be cut in front of any token, and the tokens before
  the cut stay what they are whatever is put behind it, as long as that begins with
  the same character (`exists_split`).  The end of the text and a line feed will do
  as well, for they end every piece.

  What kind of token stands behind the cut is decided by its first character
  (`exists_lexeme`).
-/
import CallLang.Proofs.Lexing

namespace CallLang.Grammar

/-- Whether one character, or the end of the text, ends every piece of text that another
    one ends. -/
def StandsFor (next next' : Option Char) : Prop :=
  next = next' ∨ next = none ∨ next = some '\n'

theorem StandsFor.append {x y : List Char} (h : StandsFor y.head? x.head?) (u : List Char) :
    StandsFor (u ++ y).head? (u ++ x).head? := by
  cases u with
  | nil => exact h
  | cons c u => exact .inl rfl

section

variable {next next' : Option Char}

theorem Filler.Before.standsFor {filler : Filler} (h : filler.Before next')
    (hnext : StandsFor next next') : filler.Before next := by
  cases filler with
  | blank c => exact h
  | comment body =>
      refine ⟨h.1, ?_⟩
      rcases hnext with rfl | rfl | rfl
      · exact h.2
      · trivial
      · rfl

theorem Gap.Before.standsFor {gap : Gap} (h : gap.Before next') (hnext : StandsFor next next') :
    gap.Before next := by
  induction gap with
  | nil => trivial
  | cons filler gap ih =>
      refine ⟨h.1.standsFor ?_, ih h.2⟩
      cases (Gap.chars gap).head? with
      | none => exact hnext
      | some c => exact .inl rfl

theorem Atom.EndsBefore.standsFor {a : Atom} (h : a.EndsBefore next')
    (hnext : StandsFor next next') : a.EndsBefore next := by
  rcases hnext with rfl | rfl | rfl
  · exact h
  · cases a <;> trivial
  · cases a with
    | text contents => trivial
    | number digits => exact (by decide : joinsDigits '\n' = false)
    | word name => exact (by decide : isWordChar '\n' = false)

end

/-- A text can be cut in front of any of its tokens, or at its end, unless the cut would be
    behind a quotation mark without a partner. -/
theorem exists_split {place : Nat} {chars : List Char} {before after : List Lexeme}
    (h : lexemesFrom place chars = before ++ after)
    (hclosed : ∀ lexeme ∈ before, lexeme.token ≠ .unclosed) :
    ∃ u x, chars = u ++ x ∧ EndsGap x ∧ lexemesFrom (place + u.length) x = after ∧
      ∀ y : List Char, StandsFor y.head? x.head? →
        lexemesFrom place (u ++ y) = before ++ lexemesFrom (place + u.length) y := by
  induction before generalizing place chars with
  | nil =>
      obtain ⟨gap, x, hgap, hx, rfl, -⟩ := exists_gap place chars
      refine ⟨gap.chars, x, rfl, hx, ?_, fun y hy => ?_⟩
      · rw [← lexemesFrom_gap place hgap, h, List.nil_append]
      · rw [lexemesFrom_gap place (hgap.standsFor hy), List.nil_append]
  | cons lexeme before ih =>
      have hlexed := lexed place chars
      rw [h, List.cons_append] at hlexed
      generalize hrest : before ++ after = more at hlexed
      have hclosed' : ∀ other ∈ before, other.token ≠ .unclosed := fun other hother =>
        hclosed other (List.mem_cons_of_mem lexeme hother)
      cases hlexed with
      | mark gap c token rest hmark hgap =>
          obtain ⟨u, x, rfl, hx, hafter, hsplit⟩ := ih hrest.symm hclosed'
          have hplace : place + gap.chars.length + 1 + u.length =
              place + (gap.chars ++ c :: u).length := by
            simp only [List.length_append, List.length_cons]
            omega
          refine ⟨gap.chars ++ c :: u, x, by simp, hx, hplace ▸ hafter, fun y hy => ?_⟩
          rw [List.append_assoc, List.cons_append, lexemesFrom_gap place hgap,
            lexemesFrom_mark token _ _ hmark, hsplit y hy, hplace, List.cons_append]
      | atom gap a rest ha hgap hend =>
          obtain ⟨u, x, rfl, hx, hafter, hsplit⟩ := ih hrest.symm hclosed'
          have hplace : place + gap.chars.length + a.chars.length + u.length =
              place + (gap.chars ++ (a.chars ++ u)).length := by
            simp only [List.length_append]
            omega
          refine ⟨gap.chars ++ (a.chars ++ u), x, by simp, hx, hplace ▸ hafter, fun y hy => ?_⟩
          obtain ⟨c, chars, hcons, -⟩ := Atom.chars_eq_cons ha
          have hgap' : gap.Before (a.chars ++ (u ++ y)).head? := by simpa [hcons] using hgap
          rw [List.append_assoc, List.append_assoc, lexemesFrom_gap place hgap',
            lexemesFrom_ended _ ha (hend.standsFor (hy.append u)), hsplit y hy, hplace,
            List.cons_append]
      | unclosed gap body hbody hgap => exact absurd rfl (hclosed _ List.mem_cons_self)

/-- Every token begins inside of the text. -/
theorem start_lt {place : Nat} {chars : List Char} {before after : List Lexeme} {lexeme : Lexeme}
    (h : lexemesFrom place chars = before ++ lexeme :: after)
    (hclosed : ∀ other ∈ before, other.token ≠ .unclosed) :
    lexeme.start < place + chars.length := by
  obtain ⟨u, x, rfl, hx, hafter, -⟩ := exists_split h hclosed
  have hpositive : 0 < x.length := by
    refine List.length_pos_iff.2 ?_
    rintro rfl
    simp [lexemesFrom] at hafter
  rw [start_of_endsGap hx hafter, List.length_append]
  omega

theorem start_lt_length {text : String} {before after : List Lexeme} {lexeme : Lexeme}
    (h : lexemes text = before ++ lexeme :: after)
    (hclosed : ∀ other ∈ before, other.token ≠ .unclosed) : lexeme.start < text.length := by
  rw [← String.length_toList, ← Nat.zero_add text.toList.length]
  exact start_lt h hclosed

/-- A line feed keeps the tokens before it apart from those behind it. -/
theorem lexemesFrom_newline {place : Nat} {chars : List Char}
    (hclosed : ∀ lexeme ∈ lexemesFrom place chars, lexeme.token ≠ .unclosed) (y : List Char) :
    lexemesFrom place (chars ++ '\n' :: y) =
      lexemesFrom place chars ++ lexemesFrom (place + chars.length) ('\n' :: y) := by
  obtain ⟨u, x, hchars, hx, hafter, hsplit⟩ :=
    exists_split (List.append_nil (lexemesFrom place chars)).symm hclosed
  obtain rfl := eq_nil_of_endsGap hx hafter
  obtain rfl : chars = u := by simpa using hchars
  exact hsplit ('\n' :: y) (.inr (.inr rfl))

/-! ### First characters -/

/-- Whether a token may begin with a character. -/
def Begins (c : Char) : Token → Prop
  | .opening => c = '('
  | .closing => c = ')'
  | .comma => c = ','
  | .text _ | .unclosed => c = '"'
  | .numeral _ | .word _ => isWordChar c = true

theorem begins_of_mark {c : Char} {token : Token} (h : Token.ofMark? c = some token) :
    Begins c token := by
  rcases mark_cases h with ⟨rfl, rfl⟩ | ⟨rfl, rfl⟩ | ⟨rfl, rfl⟩ <;> rfl

theorem begins_of_atom {c : Char} {a : Atom} {rest : List Char} (ha : a.Spelled)
    (h : a.chars = c :: rest) : Begins c a.token := by
  cases a with
  | text contents => exact (List.cons.inj h).1.symm
  | number digits => exact Atom.isWordChar_of_mem ha nofun c (by simp [h])
  | word name => exact Atom.isWordChar_of_mem ha nofun c (by simp [h])

/-- A bracket or comma is the only token that begins as it does. -/
theorem eq_of_begins {c : Char} {token token' : Token}
    (hmark : token = .opening ∨ token = .closing ∨ token = .comma) (h : Begins c token)
    (h' : Begins c token') : token' = token := by
  rcases hmark with rfl | rfl | rfl <;> obtain rfl := h <;> cases token' <;>
    first | rfl | simp [Begins, isWordChar, isPunctuation] at h'

theorem Gap.eq_nil_of_endsGap {gap : Gap} {next : Option Char} {x : List Char}
    (hgap : gap.Before next) (h : EndsGap (gap.chars ++ x)) : gap = [] := by
  cases gap with
  | nil => rfl
  | cons filler gap =>
      cases filler with
      | blank c =>
          have hblank : Text.isBlank c = true := hgap.1
          rw [(h c rfl).1] at hblank
          exact absurd hblank (by decide)
      | comment body => exact absurd rfl (h '#' rfl).2

/-- A character that belongs to no gap begins a token. -/
theorem exists_lexeme (place : Nat) {c : Char} {x : List Char} (h : EndsGap (c :: x)) :
    ∃ lexeme after, lexemesFrom place (c :: x) = lexeme :: after ∧ lexeme.start = place ∧
      Begins c lexeme.token := by
  have hlexed := lexed place (c :: x)
  generalize hchars : c :: x = chars at h hlexed ⊢
  generalize lexemesFrom place chars = lexemes at hlexed ⊢
  cases hlexed with
  | silent gap hgap =>
      obtain rfl := Gap.eq_nil_of_endsGap (x := []) hgap (by rwa [List.append_nil])
      cases hchars
  | mark gap d token rest hmark hgap =>
      obtain rfl := Gap.eq_nil_of_endsGap hgap h
      obtain ⟨rfl, -⟩ := List.cons.inj hchars
      exact ⟨_, _, rfl, rfl, begins_of_mark hmark⟩
  | atom gap a rest ha hgap =>
      obtain rfl := Gap.eq_nil_of_endsGap hgap h
      obtain ⟨d, more, hcons, -⟩ := Atom.chars_eq_cons ha
      rw [Gap.chars, List.nil_append, hcons] at hchars
      obtain ⟨rfl, -⟩ := List.cons.inj hchars
      exact ⟨_, _, rfl, rfl, begins_of_atom ha hcons⟩
  | unclosed gap body hbody hgap =>
      obtain rfl := Gap.eq_nil_of_endsGap hgap h
      obtain ⟨rfl, -⟩ := List.cons.inj hchars
      exact ⟨_, _, rfl, rfl, rfl⟩

/-- No other quotation mark stands behind one that is without a partner. -/
theorem eq_quote_of_lexemes {place : Nat} {x : List Char} {lexeme : Lexeme}
    {after : List Lexeme} (hx : EndsGap x) (h : lexemesFrom place x = lexeme :: after)
    (htoken : lexeme.token = .unclosed) : ∃ body, x = '"' :: body ∧ '"' ∉ body := by
  have hlexed := lexed place x
  rw [h] at hlexed
  cases hlexed with
  | mark gap d token rest hmark hgap =>
      rcases mark_cases hmark with ⟨-, rfl⟩ | ⟨-, rfl⟩ | ⟨-, rfl⟩ <;> cases htoken
  | atom gap a rest ha hgap => cases a <;> cases htoken
  | unclosed gap body hbody hgap =>
      obtain rfl := Gap.eq_nil_of_endsGap hgap hx
      exact ⟨body, rfl, hbody⟩

end CallLang.Grammar
