/-
  CallLang/Proofs/Passages.lean
  =============================
  **How far the reader gets.**

  From the beginning of a text the reader passes from one situation to the next, a
  token at a time, until something stops it: a token that is out of place, the end
  of the text, or a token behind a complete expression (`exists_passes`).  Where it
  gets does not depend on what follows, nor on the limit as long as that is large
  enough.

  Two things hold of every situation that the reader gets to.  As many calls are
  open as brackets were opened and not closed (`Passes.length_frames`).  And a text
  that ends there can be completed, by an expression if one is due and the closing
  brackets of the open calls (`parse_completed`).
-/
import CallLang.Proofs.Refusals
import CallLang.Proofs.Truncation

namespace CallLang.Reader

open Grammar

/-- What the reader has in hand, the open calls, and the level of the next argument
    list. -/
structure Situation where
  stage : Stage
  frames : List Frame
  level : Nat

def Situation.initial : Situation := ⟨.awaiting .start, [], 0⟩

/-- Reads on from a situation. -/
def readOn (limit : Nat) (text : List Char) (s : Situation) (tokens : List Lexeme) :
    Except Stop (Expr × List Lexeme) :=
  read limit text s.stage s.frames s.level tokens

/-- Whether the reader passes through some tokens from one situation to another, within a
    limit. -/
inductive Passes (limit : Nat) (text : List Char) :
    Situation → List Lexeme → Situation → Prop where
  | refl (s : Situation) : Passes limit text s [] s
  | step {s between s' lexeme tokens}
      (hmove : Move text lexeme s.stage s.frames s.level between.stage between.frames
        between.level)
      (hlevel : lexeme.token = .opening → s.level < limit)
      (h : Passes limit text between tokens s') : Passes limit text s (lexeme :: tokens) s'

variable {limit limit' : Nat} {text text' : List Char} {s s' : Situation}
  {tokens before after : List Lexeme}

/-! ### One token -/

section

variable {lexeme : Lexeme} {stage stage' : Stage} {frames frames' : List Frame}
  {level level' : Nat}

theorem atom_of_text {expr : Expr} (h : atom text lexeme = .ok expr) :
    atom text' lexeme = .ok expr := by
  obtain ⟨token, start, stop⟩ := lexeme
  cases token <;> simp_all [atom, refuse]

/-- The text matters to messages only. -/
theorem Move.of_text (h : Move text lexeme stage frames level stage' frames' level') :
    Move text' lexeme stage frames level stage' frames' level' := by
  cases h with
  | atom expr h => exact .atom expr (atom_of_text h)
  | emptyList h => exact .emptyList h
  | opening h => exact .opening h
  | comma h => exact .comma h
  | closing h => exact .closing h

/-- What a token adds to the number of open calls. -/
def weight : Token → Int
  | .opening => 1
  | .closing => -1
  | _ => 0

/-- How many more brackets some tokens open than they close. -/
def balance (tokens : List Lexeme) : Int :=
  (tokens.map fun lexeme => weight lexeme.token).sum

theorem balance_nil : balance [] = 0 := rfl

theorem balance_cons (lexeme : Lexeme) (tokens : List Lexeme) :
    balance (lexeme :: tokens) = weight lexeme.token + balance tokens := by
  rw [balance, List.map_cons, List.sum_cons, balance]

theorem Move.length_frames (h : Move text lexeme stage frames level stage' frames' level') :
    (frames'.length : Int) = frames.length + weight lexeme.token := by
  cases h with
  | atom expr h =>
      obtain ⟨token, start, stop⟩ := lexeme
      cases token <;> simp_all [Reader.atom, refuse, weight]
  | emptyList h => simp [h, weight]
  | opening h => simp [h, weight]
  | comma h => simp [h, weight]
  | closing h => simp [h, weight]

theorem Move.closed (h : Move text lexeme stage frames level stage' frames' level') :
    lexeme.token ≠ .unclosed := by
  cases h with
  | atom expr h =>
      intro htoken
      simp [Reader.atom, htoken, refuse] at h
  | emptyList h => simp [h]
  | opening h => simp [h]
  | comma h => simp [h]
  | closing h => simp [h]

/-- Behind a token an expression is due inside brackets only. -/
theorem Move.unfinished_iff (h : Move text lexeme stage frames level stage' frames' level') :
    Unfinished stage' frames' ↔ frames' ≠ [] := by
  cases h with
  | opening h => exact ⟨fun _ => List.cons_ne_nil _ _, nofun⟩
  | comma h => exact ⟨fun _ => List.cons_ne_nil _ _, nofun⟩
  | _ => exact ⟨fun hunfinished => hunfinished _ rfl, fun hframes _ _ => hframes⟩

end

/-! ### Many tokens -/

namespace Passes

theorem readOn (h : Passes limit text s before s') (after : List Lexeme) :
    readOn limit text s (before ++ after) = Reader.readOn limit text s' after := by
  induction h with
  | refl s => rfl
  | step hmove hlevel _ ih => exact (read_of_move hmove hlevel).trans ih

theorem of_text (h : Passes limit text s tokens s') : Passes limit text' s tokens s' := by
  induction h with
  | refl s => exact .refl s
  | step hmove hlevel _ ih => exact .step hmove.of_text hlevel ih

/-- A reader that is not cut off passes where another one has passed. -/
theorem of_ended (h : Passes limit text s before s')
    (hended : Ended (Reader.readOn limit' text s (before ++ after))) :
    Passes limit' text s before s' := by
  induction h with
  | refl s => exact .refl s
  | step hmove _ _ ih =>
      have hlevel := level_of_ended hmove hended
      refine .step hmove hlevel (ih ?_)
      rwa [Reader.readOn, List.cons_append, read_of_move hmove hlevel] at hended

theorem exists_between (h : Passes limit text s (before ++ after) s') :
    ∃ between, Passes limit text s before between ∧ Passes limit text between after s' := by
  induction before generalizing s with
  | nil => exact ⟨s, .refl s, h⟩
  | cons lexeme before ih =>
      cases h with
      | step hmove hlevel h =>
          obtain ⟨between, hbefore, hafter⟩ := ih h
          exact ⟨between, .step hmove hlevel hbefore, hafter⟩

theorem closed (h : Passes limit text s tokens s') :
    ∀ lexeme ∈ tokens, lexeme.token ≠ .unclosed := by
  induction h with
  | refl s => exact nofun
  | step hmove _ _ ih => exact List.forall_mem_cons.2 ⟨hmove.closed, ih⟩

/-- As many calls are open as brackets were opened and not closed. -/
theorem length_frames (h : Passes limit text s tokens s') :
    (s'.frames.length : Int) = s.frames.length + balance tokens := by
  induction h with
  | refl s => rw [balance_nil, Int.add_zero]
  | step hmove _ _ ih => rw [ih, hmove.length_frames, balance_cons, Int.add_assoc]

/-- Behind the first token a text is unfinished exactly if calls are open. -/
theorem unfinished_iff (h : Passes limit text s tokens s') (htokens : tokens ≠ []) :
    Unfinished s'.stage s'.frames ↔ s'.frames ≠ [] := by
  induction h with
  | refl s => exact absurd rfl htokens
  | @step s between s' lexeme tokens hmove _ h ih =>
      cases h with
      | refl _ => exact hmove.unfinished_iff
      | step hmove' hlevel' h => exact ih (List.cons_ne_nil _ _)

end Passes

/-! ### What stops the reader -/

/-- Whether the reader does not pass on from a situation, given the tokens that are left. -/
inductive Stops : Situation → List Lexeme → Prop where
  | finished {expr : Expr} {level : Nat} {tokens : List Lexeme}
      (h : ∀ lexeme ∈ tokens.head?, lexeme.token ≠ .opening) :
      Stops ⟨.holding expr, [], level⟩ tokens
  | unfinished {s : Situation} (h : Unfinished s.stage s.frames) : Stops s []
  | refused {s : Situation} {lexeme : Lexeme} {rest : List Lexeme}
      (h : Refused s.stage s.frames lexeme.token) : Stops s (lexeme :: rest)
  | long {opening : Opening} {frames : List Frame} {level : Nat} {lexeme : Lexeme}
      {rest : List Lexeme} {digits : List Char} (htoken : lexeme.token = .numeral digits)
      (hlong : maxDigits < digits.length) :
      Stops ⟨.awaiting opening, frames, level⟩ (lexeme :: rest)

/-- A reader that is not cut off gets to where something stops it. -/
theorem exists_passes (hended : Ended (readOn limit text s tokens)) :
    ∃ before after s', tokens = before ++ after ∧ Passes limit text s before s' ∧
      Stops s' after := by
  induction tokens generalizing s with
  | nil =>
      obtain ⟨stage, frames, level⟩ := s
      rcases finished_or_unfinished stage frames with ⟨expr, rfl, rfl⟩ | hunfinished
      · exact ⟨[], [], _, rfl, .refl _, .finished nofun⟩
      · exact ⟨[], [], _, rfl, .refl _, .unfinished hunfinished⟩
  | cons lexeme rest ih =>
      obtain ⟨stage, frames, level⟩ := s
      cases met text lexeme stage frames level with
      | @move _ _ _ stage' frames' level' hmove =>
          have hlevel := level_of_ended hmove hended
          rw [readOn, read_of_move hmove hlevel] at hended
          obtain ⟨before, after, s', rfl, hpasses, hstops⟩ :=
            ih (s := ⟨stage', frames', level'⟩) hended
          exact ⟨lexeme :: before, after, s', rfl, .step hmove hlevel hpasses, hstops⟩
      | long htoken hlong => exact ⟨[], _, _, rfl, .refl _, .long htoken hlong⟩
      | refused hrefused => exact ⟨[], _, _, rfl, .refl _, .refused hrefused⟩
      | done hopening => exact ⟨[], _, _, rfl, .refl _, .finished (by simpa using hopening)⟩

theorem readOn_finished {expr : Expr} {level : Nat}
    (h : ∀ lexeme ∈ tokens.head?, lexeme.token ≠ .opening) :
    readOn limit text ⟨.holding expr, [], level⟩ tokens = .ok (expr, tokens) := by
  cases tokens with
  | nil => exact read_finished expr
  | cons lexeme rest => exact read_done (h lexeme rfl)

/-! ### Whole texts -/

section

variable {source : String}

theorem readAll_eq (hpasses : Passes limit source.toList .initial before s)
    (htokens : lexemes source = before ++ after) :
    readAll limit source = readOn limit source.toList s after := by
  rw [← hpasses.readOn after, ← htokens]
  rfl

/-- The reader passes through a program to its end. -/
theorem passes_of_parse {e : Expr} (h : Expr.parse limit source = .ok e) :
    ∃ level, Passes limit source.toList .initial (lexemes source) ⟨.holding e, [], level⟩ := by
  have hended : Ended (readAll limit source) := ended_readAll (h ▸ ended_ok e)
  obtain ⟨before, after, s, htokens, hpasses, hstops⟩ := exists_passes (s := .initial) hended
  rw [parse_eq, readAll_eq hpasses htokens] at h
  cases hstops with
  | @finished _ level _ hopening =>
      rw [readOn_finished hopening] at h
      cases after with
      | nil =>
          obtain rfl := Except.ok.inj h
          rw [List.append_nil] at htokens
          exact ⟨level, htokens ▸ hpasses⟩
      | cons lexeme rest =>
          have hlt := start_lt htokens hpasses.closed
          rw [Nat.zero_add, String.length_toList] at hlt
          simp only [complete, if_neg (Nat.ne_of_lt hlt)] at h
          cases h
  | unfinished hunfinished =>
      obtain ⟨cause, -, hread⟩ := read_unfinished source.toList hunfinished
      rw [readOn, hread] at h
      cases h
  | refused hrefused =>
      obtain ⟨cause, -, hread⟩ := read_refused source.toList hrefused
      rw [readOn, hread] at h
      cases h
  | long htoken hlong =>
      rw [readOn, read_long htoken hlong] at h
      cases h

/-- A text that the reader passes through is a program unless it is unfinished. -/
theorem parse_of_passes (h : Passes limit source.toList .initial (lexemes source) s) :
    (Unfinished s.stage s.frames ∧ ∃ cause : Mistake, cause.category = .grammar ∧
        Expr.parse limit source = refuse cause source.length source.length) ∨
      (¬Unfinished s.stage s.frames ∧ ∃ e, Expr.parse limit source = .ok e) := by
  have hread := readAll_eq h (List.append_nil _).symm
  obtain ⟨stage, frames, level⟩ := s
  rcases finished_or_unfinished stage frames with ⟨e, rfl, rfl⟩ | hunfinished
  · refine .inr ⟨fun hunfinished => hunfinished e rfl rfl, e, ?_⟩
    rw [parse_eq, hread, readOn, read_finished]
    rfl
  · obtain ⟨cause, hgrammar, hrefuse⟩ := read_unfinished source.toList hunfinished
    refine .inl ⟨hunfinished, cause, hgrammar, ?_⟩
    rw [parse_eq, hread, readOn, hrefuse, String.length_toList]
    rfl

end

/-! ### Completion -/

/-- What completes a text that ends in a situation: an expression if one is due, and the
    closing brackets of all open calls. -/
def Situation.completion (s : Situation) : List Char :=
  let brackets := List.replicate s.frames.length ')'
  match s.stage with
  | .awaiting _ => 'x' :: brackets
  | .holding _ => brackets

/-- Closing brackets close the open calls. -/
theorem read_brackets (limit : Nat) (text : List Char) (expr : Expr) (frames : List Frame)
    (level place : Nat) :
    ∃ result, read limit text (.holding expr) frames level
      (lexemesFrom place (List.replicate frames.length ')')) = .ok (result, []) := by
  induction frames generalizing expr level place with
  | nil => exact ⟨expr, by simp [lexemesFrom, read_finished]⟩
  | cons frame frames ih =>
      obtain ⟨result, hread⟩ := ih ((frame.push expr).close (place + 1)) (frame.level + 1)
        (place + 1)
      refine ⟨result, ?_⟩
      rw [List.length_cons, List.replicate_succ, lexemesFrom_mark .closing _ _ rfl, read_closing,
        hread]

theorem readOn_completion (limit : Nat) (text : List Char) (s : Situation) (place : Nat) :
    ∃ result, readOn limit text s (lexemesFrom place s.completion) = .ok (result, []) := by
  obtain ⟨stage, frames, level⟩ := s
  cases stage with
  | holding expr => exact read_brackets limit text expr frames level place
  | awaiting opening =>
      have hword : (Atom.word ['x']).Proper := by
        refine ⟨⟨List.cons_ne_nil _ _, ?_, .inl rfl⟩, trivial⟩
        intro c hc
        rw [List.mem_singleton.1 hc]
        exact isWordChar_of_code (by decide) (by decide)
      have hend : EndsWord (List.replicate frames.length ')') := by
        intro c hc
        rw [List.eq_of_mem_replicate (List.mem_of_mem_head? hc)]
        decide
      obtain ⟨result, hread⟩ := read_brackets limit text ((Atom.word ['x']).expr place)
        frames level (place + 1)
      refine ⟨result, ?_⟩
      simp only [readOn, Situation.completion]
      rw [show 'x' :: List.replicate frames.length ')' =
          (Atom.word ['x']).chars ++ List.replicate frames.length ')' from rfl,
        lexemesFrom_atom place hword.1 hend, read_atom hword]
      exact hread

end CallLang.Reader
