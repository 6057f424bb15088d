/-
  CallLang/Proofs/Positions.lean
  ==============================
  **Where mistakes of grammar stand.**

  A text that is no program is refused at the first position where it cannot go on
  as a program.  What stands before the position can be completed, and with the
  character at the position nothing can be.  The only exception is a quotation mark
  without a partner: it is refused where it stands, although another one behind it
  might have closed it.
-/
import CallLang.Proofs.Passages

namespace CallLang.Reader

open Grammar

/-- The first characters of a text. -/
def beginning (source : String) (count : Nat) : String :=
  String.ofList (source.toList.take count)

/-- Whether a quotation mark stands at a place of a text, and no other behind it. -/
def LoneQuote (source : String) (place : Nat) : Prop :=
  ∃ body, source.toList.drop place = '"' :: body ∧ '"' ∉ body

/-- What may stop the parser in a situation, given the tokens that are left, with the place
    of the mistake: the end of the text, a token that is out of place, or one behind a
    complete program. -/
inductive Obstacle (source : String) : Situation → List Lexeme → Span → Prop where
  | ending {s : Situation} (h : Unfinished s.stage s.frames) :
      Obstacle source s [] ⟨source.length, source.length⟩
  | refused {s : Situation} {lexeme : Lexeme} {rest : List Lexeme}
      (h : Refused s.stage s.frames lexeme.token) :
      Obstacle source s (lexeme :: rest) ⟨lexeme.start, lexeme.start + 1⟩
  | extra {expr : Expr} {level : Nat} {lexeme : Lexeme} {rest : List Lexeme}
      (h : lexeme.token ≠ .opening) :
      Obstacle source ⟨.holding expr, [], level⟩ (lexeme :: rest)
        ⟨lexeme.start, source.length⟩

variable {limit : Nat} {text u : List Char} {source : String} {s : Situation}
  {before after : List Lexeme} {span : Span}

/-- The parser makes a mistake of what it cannot pass. -/
theorem exists_obstacle {cause : Mistake} {place : Option Span}
    (h : Expr.parse limit source = .error (.mistake cause place)) :
    ∃ before after s span, lexemes source = before ++ after ∧
      Passes limit source.toList .initial before s ∧ Obstacle source s after span ∧
      place = some span := by
  have hended : Ended (readAll limit source) := by
    refine ended_readAll ?_
    rw [h]
    rintro _ ⟨rfl⟩
    exact id
  obtain ⟨before, after, s, htokens, hpasses, hstops⟩ := exists_passes (s := .initial) hended
  refine ⟨before, after, s, ?_⟩
  rw [parse_eq, readAll_eq hpasses htokens] at h
  cases hstops with
  | finished hopening =>
      rw [readOn_finished hopening] at h
      cases after with
      | nil => cases h
      | cons lexeme rest =>
          simp only [complete, refuse] at h
          split at h
          · cases h
          · cases h
            exact ⟨_, htokens, hpasses, .extra (hopening lexeme rfl), rfl⟩
  | unfinished hunfinished =>
      obtain ⟨other, -, hread⟩ := read_unfinished source.toList hunfinished
      rw [readOn, hread, String.length_toList] at h
      cases h
      exact ⟨_, htokens, hpasses, .ending hunfinished, rfl⟩
  | refused hrefused =>
      obtain ⟨other, -, hread⟩ := read_refused source.toList hrefused
      rw [readOn, hread] at h
      cases h
      exact ⟨_, htokens, hpasses, .refused hrefused, rfl⟩
  | long htoken hlong =>
      rw [readOn, read_long htoken hlong] at h
      cases h

/-- An obstacle stands where the text is cut in front of the tokens that are left. -/
theorem Obstacle.start_eq {x : List Char} (h : Obstacle source s after span) (hx : EndsGap x)
    (hafter : lexemesFrom u.length x = after) (hlength : source.length = u.length + x.length) :
    span.start = u.length := by
  cases h with
  | ending _ =>
      obtain rfl := eq_nil_of_endsGap hx hafter
      simpa using hlength
  | refused _ => exact start_of_endsGap hx hafter
  | extra _ => exact start_of_endsGap hx hafter

theorem Obstacle.span_le (h : Obstacle source s after span)
    (htokens : lexemes source = before ++ after)
    (hclosed : ∀ lexeme ∈ before, lexeme.token ≠ .unclosed) :
    span.start ≤ span.stop ∧ span.stop ≤ source.length := by
  cases h with
  | ending _ => exact ⟨Nat.le_refl _, Nat.le_refl _⟩
  | refused _ => exact ⟨Nat.le_succ _, start_lt_length htokens hclosed⟩
  | extra _ => exact ⟨Nat.le_of_lt (start_lt_length htokens hclosed), Nat.le_refl _⟩

/-- Wherever the reader has got, a text that ends there can be completed behind a line
    feed. -/
theorem parse_completed (hpasses : Passes limit text .initial before s)
    (hsplit : ∀ y, lexemesFrom 0 (u ++ '\n' :: y) = before ++ lexemesFrom u.length ('\n' :: y)) :
    ∃ e, Expr.parse limit (String.ofList u ++ String.ofList ('\n' :: s.completion)) = .ok e := by
  generalize hwhole : String.ofList u ++ String.ofList ('\n' :: s.completion) = whole
  have hchars : whole.toList = u ++ '\n' :: s.completion := by
    rw [← hwhole, String.toList_append, String.toList_ofList, String.toList_ofList]
  obtain ⟨e, hread⟩ := readOn_completion limit whole.toList s (u.length + 1)
  have hgap : lexemesFrom u.length ('\n' :: s.completion) =
      lexemesFrom (u.length + 1) s.completion :=
    lexemesFrom_filler u.length (show (Filler.blank '\n').Before _ from rfl)
  have htokens : lexemes whole = before ++ lexemesFrom (u.length + 1) s.completion := by
    rw [lexemes, hchars, hsplit, hgap]
  refine ⟨e, ?_⟩
  rw [parse_eq, readAll_eq hpasses.of_text htokens, hread]
  rfl

/-- A token that begins as one that is out of place is out of place, too. -/
theorem Refused.of_begins {stage : Stage} {frames : List Frame} {token token' : Token} {c : Char}
    (h : Refused stage frames token) (hclosed : token ≠ .unclosed) (hc : Begins c token)
    (hc' : Begins c token') : Refused stage frames token' := by
  cases h with
  | closing h =>
      obtain rfl := eq_of_begins (.inr (.inl rfl)) hc hc'
      exact .closing h
  | opening =>
      obtain rfl := eq_of_begins (.inl rfl) hc hc'
      exact .opening
  | comma =>
      obtain rfl := eq_of_begins (.inr (.inr rfl)) hc hc'
      exact .comma
  | unclosed => exact absurd rfl hclosed
  | separator hopening hcomma hclosing =>
      refine .separator ?_ ?_ ?_
      · rintro rfl
        exact hopening (eq_of_begins (.inl rfl) hc' hc)
      · rintro rfl
        exact hcomma (eq_of_begins (.inr (.inr rfl)) hc' hc)
      · rintro rfl
        exact hclosing (eq_of_begins (.inr (.inl rfl)) hc' hc)

/-- No program begins with what stands before an obstacle and the first character of the
    obstacle. -/
theorem parse_ne_ok_of_obstacle {c : Char} {y : List Char} {lexeme : Lexeme} {rest : List Lexeme}
    {whole : String} (hpasses : Passes limit text .initial before s)
    (hobstacle : Obstacle source s (lexeme :: rest) span) (hclosed : lexeme.token ≠ .unclosed)
    (hc : Begins c lexeme.token) (hgap : EndsGap (c :: y)) (hchars : whole.toList = u ++ c :: y)
    (hsplit : lexemesFrom 0 (u ++ c :: y) = before ++ lexemesFrom u.length (c :: y))
    (limit' : Nat) (e : Expr) : Expr.parse limit' whole ≠ .ok e := by
  intro hparse
  obtain ⟨lexeme', rest', htokens, hstart, hc'⟩ := exists_lexeme u.length hgap
  have hlexemes : lexemes whole = before ++ lexeme' :: rest' := by
    rw [lexemes, hchars, hsplit, htokens]
  have hended : Ended (readOn limit' whole.toList .initial (before ++ lexeme' :: rest')) := by
    rw [← hlexemes]
    exact ended_readAll (hparse ▸ ended_ok e)
  have hpasses' : Passes limit' whole.toList .initial before s := hpasses.of_text.of_ended hended
  rw [parse_eq, readAll_eq hpasses' hlexemes] at hparse
  cases hobstacle with
  | refused hrefused =>
      obtain ⟨cause, -, hread⟩ :=
        read_refused whole.toList (hrefused.of_begins hclosed hc hc')
      rw [readOn, hread] at hparse
      cases hparse
  | extra hopening =>
      have hopening' : lexeme'.token ≠ .opening := by
        intro htoken
        rw [htoken] at hc'
        exact hopening (eq_of_begins (.inl rfl) hc' hc)
      have hlength : lexeme'.start ≠ whole.length := by
        rw [hstart, ← String.length_toList, hchars, List.length_append, List.length_cons]
        omega
      rw [readOn_finished (by simpa using hopening')] at hparse
      simp only [complete, if_neg hlength] at hparse
      cases hparse

/-- A mistake that parsing makes is one of grammar, and it stands at the first position where
    the text cannot go on: what is before it can be completed, within the same limit, and
    with the next character nothing can be, within whatever limit, unless that is a quotation
    mark without a partner.  A mistake at the end of a text is that it must go on. -/
theorem mistake_at_first_obstacle {cause : Mistake} {place : Option Span}
    (h : Expr.parse limit source = .error (.mistake cause place)) :
    cause.category = .grammar ∧ ∃ span, place = some span ∧ span.start ≤ span.stop ∧
      span.stop ≤ source.length ∧
      (∃ more e, Expr.parse limit (beginning source span.start ++ more) = .ok e) ∧
      (span.start < source.length → ¬LoneQuote source span.start → ∀ limit' more e,
        Expr.parse limit' (beginning source (span.start + 1) ++ more) ≠ .ok e) ∧
      (span.start = source.length → ∃ more e, Expr.parse limit (source ++ more) = .ok e) := by
  refine ⟨grammar_of_parse h, ?_⟩
  obtain ⟨before, after, s, span, htokens, hpasses, hobstacle, hplace⟩ := exists_obstacle h
  obtain ⟨u, x, hchars, hx, hafter, hsplit⟩ := exists_split htokens hpasses.closed
  rw [Nat.zero_add] at hafter hsplit
  have hlength : source.length = u.length + x.length := by
    rw [← String.length_toList, hchars, List.length_append]
  -- the text is cut where the mistake stands
  have hstart : span.start = u.length := hobstacle.start_eq hx hafter hlength
  have hspan := hobstacle.span_le htokens hpasses.closed
  have hcompleted : ∃ more e, Expr.parse limit (String.ofList u ++ more) = .ok e :=
    ⟨_, parse_completed hpasses fun y => hsplit ('\n' :: y) (.inr (.inr rfl))⟩
  have hbeginning : beginning source span.start = String.ofList u := by
    rw [beginning, hchars, hstart, List.take_left]
  refine ⟨span, hplace, hspan.1, hspan.2, hbeginning ▸ hcompleted, ?_, ?_⟩
  · intro hinside hlone limit' more e
    obtain ⟨c, y, rfl⟩ : ∃ c y, x = c :: y := by
      refine List.exists_cons_of_length_pos ?_
      omega
    obtain ⟨lexeme, rest, htoken, -, hc⟩ := exists_lexeme u.length hx
    obtain rfl := hafter.symm.trans htoken
    have hclosed : lexeme.token ≠ .unclosed := by
      intro hunclosed
      obtain ⟨body, hbody, hquote⟩ := eq_quote_of_lexemes hx htoken hunclosed
      refine hlone ⟨body, ?_, hquote⟩
      rw [hchars, hstart, List.drop_left, hbody]
    have hwhole : (beginning source (span.start + 1) ++ more).toList = u ++ c :: more.toList := by
      rw [beginning, String.toList_append, String.toList_ofList, hchars, hstart,
        List.take_length_add_append, List.take_succ_cons, List.take_zero, List.append_assoc,
        List.singleton_append]
    exact parse_ne_ok_of_obstacle hpasses hobstacle hclosed hc
      (endsGap_cons (hx c rfl).1 (hx c rfl).2) hwhole (hsplit _ (.inl rfl)) limit' e
  · intro hend
    have hwhole : source = String.ofList u := by
      rw [← hbeginning, hend, beginning, ← String.length_toList, List.take_length,
        String.ofList_toList]
    exact hwhole ▸ hcompleted

/-- A numeral ends where a character that is no letter follows, so no program begins as this
    text does up to the hyphen. -/
theorem mistake_at_first_obstacle_hyphen :
    Expr.parse 1 "f(12-)" = .error (.mistake .missingSeparator (some ⟨4, 5⟩)) ∧
      (∃ more e, Expr.parse 1 ("f(12" ++ more) = .ok e) ∧
      ∀ limit more e, Expr.parse limit ("f(12-" ++ more) ≠ .ok e := by
  have hparse : Expr.parse 1 "f(12-)" = .error (.mistake .missingSeparator (some ⟨4, 5⟩)) := by
    cbv
  obtain ⟨-, span, hplace, -, -, hcompleted, hnever, -⟩ := mistake_at_first_obstacle hparse
  obtain rfl := Option.some.inj hplace
  have hlone : ¬LoneQuote "f(12-)" 4 := by
    rintro ⟨body, hbody, -⟩
    exact absurd (List.cons.inj hbody).1 (by decide)
  exact ⟨hparse, hcompleted, hnever (by decide) hlone⟩

end CallLang.Reader
