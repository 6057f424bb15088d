/-
  CallLang/Proofs/Refusals.lean
  =============================
  **What the reader refuses.**

  At every token the reader moves on, is done, refuses to go on for a mistake of
  grammar, or meets a numeral that is too long; only the last is a breakdown that
  is no matter of limits.  Larger limits change nothing for a text that is not
  nested too deep.
-/
import CallLang.Proofs.Cutoff
import CallLang.Proofs.Parsing

namespace CallLang.Reader

open Grammar

/-! ### One token -/

variable {limit level : Nat} {text : List Char} {stage : Stage} {frames : List Frame}
  {lexeme : Lexeme}

/-- A reader that is not cut off moves through a token that it can move through. -/
theorem level_of_ended {stage' : Stage} {frames' : List Frame} {level' : Nat} {rest : List Lexeme}
    (h : Move text lexeme stage frames level stage' frames' level')
    (hended : Ended (read limit text stage frames level (lexeme :: rest))) :
    lexeme.token = .opening → level < limit := by
  intro hopening
  by_contra hlevel
  rw [read_tooDeep h hopening hlevel] at hended
  exact not_ended_tooDeep hended

/-- Whether a text may not end at a stage: an expression is due, or a call is open. -/
def Unfinished (stage : Stage) (frames : List Frame) : Prop :=
  ∀ expr, stage = .holding expr → frames ≠ []

/-- A text that ends where it may not is a mistake of grammar at its end. -/
theorem read_unfinished (text : List Char) (h : Unfinished stage frames) :
    ∃ cause : Mistake, cause.category = .grammar ∧ ∀ limit level,
      read limit text stage frames level [] = refuse cause text.length text.length := by
  cases stage with
  | awaiting opening => exact ⟨.endOfText, rfl, fun _ _ => rfl⟩
  | holding expr =>
      obtain ⟨frame, frames, rfl⟩ := List.exists_cons_of_ne_nil (h expr rfl)
      exact ⟨.openCall, rfl, fun _ _ => rfl⟩

theorem finished_or_unfinished (stage : Stage) (frames : List Frame) :
    (∃ expr, stage = .holding expr ∧ frames = []) ∨ Unfinished stage frames := by
  cases stage with
  | awaiting opening => exact .inr nofun
  | holding expr =>
      cases frames with
      | nil => exact .inl ⟨expr, rfl, rfl⟩
      | cons frame frames => exact .inr fun _ _ => List.cons_ne_nil _ _

/-! ### All tokens -/

/-- A reader that is not cut off does the same within larger limits. -/
theorem read_of_le {limit' : Nat} (hle : limit ≤ limit') {tokens : List Lexeme}
    (h : Ended (read limit text stage frames level tokens)) :
    read limit' text stage frames level tokens = read limit text stage frames level tokens := by
  induction tokens generalizing stage frames level with
  | nil =>
      rcases finished_or_unfinished stage frames with ⟨expr, rfl, rfl⟩ | hunfinished
      · rw [read_finished, read_finished]
      · obtain ⟨cause, -, hread⟩ := read_unfinished text hunfinished
        rw [hread, hread]
  | cons lexeme rest ih =>
      cases met text lexeme stage frames level with
      | move hmove =>
          have hlevel := level_of_ended hmove h
          rw [read_of_move hmove hlevel] at h ⊢
          rw [read_of_move hmove fun hopening => Nat.lt_of_lt_of_le (hlevel hopening) hle]
          exact ih h
      | long htoken hlong => rw [read_long htoken hlong, read_long htoken hlong]
      | refused hrefused =>
          obtain ⟨cause, -, hread⟩ := read_refused text hrefused
          rw [hread, hread]
      | done hopening => rw [read_done hopening, read_done hopening]

/-- A reader comes to an end. -/
theorem read_finishes (tokens : List Lexeme) :
    read limit text stage frames level tokens ≠ .error .unfinished := by
  induction tokens generalizing stage frames level with
  | nil =>
      rcases finished_or_unfinished stage frames with ⟨expr, rfl, rfl⟩ | hunfinished
      · rw [read_finished]
        exact nofun
      · obtain ⟨cause, -, hread⟩ := read_unfinished text hunfinished
        rw [hread]
        exact nofun
  | cons lexeme rest ih =>
      cases met text lexeme stage frames level with
      | move hmove =>
          by_cases hlevel : lexeme.token = .opening → level < limit
          · rw [read_of_move hmove hlevel]
            exact ih
          · obtain ⟨hopening, hdeep⟩ := Classical.not_imp.1 hlevel
            rw [read_tooDeep hmove hopening hdeep]
            exact nofun
      | long htoken hlong =>
          rw [read_long htoken hlong]
          exact nofun
      | refused hrefused =>
          obtain ⟨cause, -, hread⟩ := read_refused text hrefused
          rw [hread]
          exact nofun
      | done hopening =>
          rw [read_done hopening]
          exact nofun

/-- All mistakes of a reader are mistakes of grammar. -/
theorem grammar_of_read {tokens : List Lexeme} {cause : Mistake} {place : Option Span}
    (hended : Ended (read limit text stage frames level tokens))
    (h : read limit text stage frames level tokens = .error (.mistake cause place)) :
    cause.category = .grammar := by
  have hrefused : ∀ {other : Mistake} {start stop : Nat}, other.category = .grammar →
      (refuse other start stop : Except Stop (Expr × List Lexeme)) =
        .error (.mistake cause place) → cause.category = .grammar := by
    rintro other start stop hgrammar ⟨⟩
    exact hgrammar
  induction tokens generalizing stage frames level with
  | nil =>
      rcases finished_or_unfinished stage frames with ⟨expr, rfl, rfl⟩ | hunfinished
      · rw [read_finished] at h
        cases h
      · obtain ⟨other, hgrammar, hread⟩ := read_unfinished text hunfinished
        rw [hread] at h
        exact hrefused hgrammar h
  | cons lexeme rest ih =>
      cases met text lexeme stage frames level with
      | move hmove =>
          have hlevel := level_of_ended hmove hended
          rw [read_of_move hmove hlevel] at hended h
          exact ih hended h
      | long htoken hlong =>
          rw [read_long htoken hlong] at h
          cases h
      | refused hout =>
          obtain ⟨other, hgrammar, hread⟩ := read_refused text hout
          rw [hread] at h
          exact hrefused hgrammar h
      | done hopening =>
          rw [read_done hopening] at h
          cases h

/-- Whether the reader comes to a numeral where an expression is due.  It has read all
    tokens before. -/
inductive Meets (text : List Char) (digits : List Char) :
    Stage → List Frame → Nat → List Lexeme → Prop where
  | here {opening frames level lexeme rest} (h : lexeme.token = .numeral digits) :
      Meets text digits (.awaiting opening) frames level (lexeme :: rest)
  | later {stage frames level stage' frames' level' lexeme rest}
      (hmove : Move text lexeme stage frames level stage' frames' level')
      (h : Meets text digits stage' frames' level' rest) :
      Meets text digits stage frames level (lexeme :: rest)

/-- A numeral that is too long is the only thing that a reader breaks down at, limits apart. -/
theorem read_breakdown_iff {tokens : List Lexeme} {cause : Breakdown}
    (hended : Ended (read limit text stage frames level tokens)) :
    read limit text stage frames level tokens = .error (.breakdown cause) ↔
      ∃ digits, Meets text digits stage frames level tokens ∧ maxDigits < digits.length ∧
        cause = .longNumeral digits.length := by
  constructor
  · intro h
    induction tokens generalizing stage frames level with
    | nil =>
        rcases finished_or_unfinished stage frames with ⟨expr, rfl, rfl⟩ | hunfinished
        · rw [read_finished] at h
          cases h
        · obtain ⟨other, -, hread⟩ := read_unfinished text hunfinished
          rw [hread] at h
          cases h
    | cons lexeme rest ih =>
        cases met text lexeme stage frames level with
        | move hmove =>
            have hlevel := level_of_ended hmove hended
            rw [read_of_move hmove hlevel] at hended h
            obtain ⟨digits, hmeets, hlong⟩ := ih hended h
            exact ⟨digits, .later hmove hmeets, hlong⟩
        | @long _ _ _ digits htoken hlong =>
            rw [read_long htoken hlong] at h
            obtain ⟨rfl⟩ := h
            exact ⟨digits, .here htoken, hlong, rfl⟩
        | refused hrefused =>
            obtain ⟨other, -, hread⟩ := read_refused text hrefused
            rw [hread] at h
            cases h
        | done hopening =>
            rw [read_done hopening] at h
            cases h
  · rintro ⟨digits, hmeets, hlong, rfl⟩
    induction hmeets with
    | here htoken => exact read_long htoken hlong
    | later hmove _ ih =>
        have hlevel := level_of_ended hmove hended
        rw [read_of_move hmove hlevel] at hended ⊢
        exact ih hended

/-! ### Whole texts -/

/-- What the reader makes of the tokens of a whole text. -/
def readAll (limit : Nat) (source : String) : Except Stop (Expr × List Lexeme) :=
  read limit source.toList (.awaiting .start) [] 0 (lexemes source)

/-- A program ends where its text ends. -/
def complete (source : String) : Expr × List Lexeme → Except Stop Expr
  | (expr, []) => .ok expr
  | (expr, lexeme :: _) =>
    if lexeme.start = source.length then .ok expr
    else refuse .textAfterProgram lexeme.start source.length

theorem parse_eq (limit : Nat) (source : String) :
    Expr.parse limit source =
      match readAll limit source with
      | .error stop => .error stop
      | .ok result => complete source result := by
  have hlexemes : lexemesAt source 0 = lexemes source := by simp [lexemesAt, lexemes]
  simp only [Expr.parse, Expr.readAt, readFrom, hlexemes, readAll]
  generalize read limit source.toList (.awaiting .start) [] 0 (lexemes source) = out
  rcases out with reason | ⟨expr, _ | ⟨lexeme, rest⟩⟩
  · rfl
  · simp only [complete, if_true]
  · rfl

theorem ended_readAll {source : String} (h : Ended (Expr.parse limit source)) :
    Ended (readAll limit source) := by
  rw [parse_eq] at h
  cases hread : readAll limit source with
  | error reason =>
      rw [hread] at h
      exact ended_error h
  | ok result => exact ended_ok result

theorem parse_of_le {limit' : Nat} (hle : limit ≤ limit') {source : String}
    (h : Ended (Expr.parse limit source)) : Expr.parse limit' source = Expr.parse limit source := by
  have hread : readAll limit' source = readAll limit source := read_of_le hle (ended_readAll h)
  rw [parse_eq, parse_eq, hread]

theorem parse_finishes (limit : Nat) (source : String) :
    Expr.parse limit source ≠ .error .unfinished := by
  rw [parse_eq]
  cases hread : readAll limit source with
  | error reason =>
      rintro ⟨rfl⟩
      exact read_finishes _ hread
  | ok result =>
      obtain ⟨expr, _ | ⟨lexeme, rest⟩⟩ := result
      · exact nofun
      · simp only [complete]
        split <;> exact nofun

/-- Only nesting too deep can cut parsing off. -/
theorem ended_parse {source : String} (h : Expr.parse limit source ≠ .error (.breakdown .tooDeep)) :
    Ended (Expr.parse limit source) := by
  intro reason hreason
  cases reason with
  | mistake cause place => exact id
  | breakdown cause =>
      have hcause : cause ≠ .tooDeep := by
        rintro rfl
        exact h hreason
      have hended : Ended (.error (.breakdown cause) : Except Stop Expr) := ended_breakdown hcause
      exact hended _ rfl
  | unfinished => exact absurd hreason (parse_finishes limit source)

/-- Parsing that is not cut off accepts the texts of the grammar and no others. -/
theorem parse_ok_iff {source : String} (h : Ended (Expr.parse limit source)) (expr : Expr) :
    Expr.parse limit source = .ok expr ↔
      ∃ d : Derivation, d.Derives source ∧ d.expr = expr := by
  rw [← parse_of_le (Nat.le_max_left limit source.length) h]
  constructor
  · exact derives_of_parse
  · rintro ⟨d, hd, rfl⟩
    exact parse_of_derives hd (Nat.le_max_right limit source.length)

theorem grammar_of_parse {source : String} {cause : Mistake} {place : Option Span}
    (h : Expr.parse limit source = .error (.mistake cause place)) : cause.category = .grammar := by
  have hended : Ended (Expr.parse limit source) := by
    rw [h]
    rintro _ ⟨rfl⟩
    exact id
  have hread := ended_readAll hended
  rw [parse_eq] at h
  cases hresult : readAll limit source with
  | error reason =>
      rw [hresult] at h
      exact grammar_of_read hread (hresult.trans (congrArg Except.error (Except.error.inj h)))
  | ok result =>
      rw [hresult] at h
      obtain ⟨expr, _ | ⟨lexeme, rest⟩⟩ := result
      · cases h
      · simp only [complete, refuse] at h
        split at h
        · cases h
        · cases h
          rfl

/-- Parsing breaks down, limits apart, exactly at the first numeral that is too long. -/
theorem parse_breakdown_iff {source : String} {cause : Breakdown}
    (h : Ended (Expr.parse limit source)) :
    Expr.parse limit source = .error (.breakdown cause) ↔
      ∃ digits, Meets source.toList digits (.awaiting .start) [] 0 (lexemes source) ∧
        maxDigits < digits.length ∧ cause = .longNumeral digits.length := by
  have hread : readAll limit source = .error (.breakdown cause) ↔ _ :=
    read_breakdown_iff (ended_readAll h)
  rw [← hread, parse_eq]
  rcases readAll limit source with reason | ⟨expr, _ | ⟨lexeme, rest⟩⟩
  · simp
  · simp [complete]
  · by_cases hend : lexeme.start = source.length <;> simp [complete, refuse, hend]

end CallLang.Reader
