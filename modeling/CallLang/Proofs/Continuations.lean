/-
  CallLang/Proofs/Continuations.lean
  ==================================
  **Programs that go on, and the parser.**

  The console counts brackets character by character, and the parser goes through
  tokens.  Both take the same characters for texts, comments and brackets: the
  count is the balance of the tokens (`goesOn_iff`).

  The balance of tokens that the reader passes through is the number of calls that
  are open then.  So of a text that the next lines can make a program, the console
  says that it goes on exactly if it is none yet.
-/
import CallLang.Continuation
import CallLang.Proofs.Positions

namespace CallLang

open Grammar

/-! ### Counting brackets -/

section

variable {balance : Int} {x : List Char}

theorem leavesOpen_plain {c : Char} (hquote : c ≠ '"') (hhash : c ≠ '#') (hopening : c ≠ '(')
    (hclosing : c ≠ ')') : leavesOpen balance (c :: x) = leavesOpen balance x := by
  rw [leavesOpen, if_neg hquote, if_neg hhash, if_neg hopening, if_neg hclosing]

theorem leavesOpen_filler {filler : Filler} (h : filler.Before x.head?) :
    leavesOpen balance (filler.chars ++ x) = leavesOpen balance x := by
  cases filler with
  | blank c =>
      have hblank : Text.isBlank c = true := h
      refine leavesOpen_plain ?_ ?_ ?_ ?_ <;> rintro rfl <;> exact absurd hblank (by decide)
  | comment body =>
      have hstop : ∀ c, x.head? = some c → decide (c ≠ '\n') = false := by
        intro c hc
        have hline : EndsLine (some c) := hc ▸ h.2
        simpa [EndsLine] using hline
      rw [Filler.chars, List.cons_append, leavesOpen, if_neg (by decide), if_pos rfl,
        dropWhile_run (newline_free h.1) hstop]

theorem leavesOpen_gap {gap : Gap} (h : gap.Before x.head?) :
    leavesOpen balance (gap.chars ++ x) = leavesOpen balance x := by
  induction gap with
  | nil => rfl
  | cons filler gap ih =>
      have hfiller : filler.Before (Gap.chars gap ++ x).head? := by
        rw [List.head?_append]
        exact h.1
      rw [Gap.chars, List.append_assoc, leavesOpen_filler hfiller, ih h.2]

theorem leavesOpen_run {u : List Char} (h : ∀ c ∈ u, isWordChar c = true) :
    leavesOpen balance (u ++ x) = leavesOpen balance x := by
  induction u with
  | nil => rfl
  | cons c u ih =>
      have hc : isWordChar c = true := h c List.mem_cons_self
      rw [List.cons_append, leavesOpen_plain, ih fun d hd => h d (List.mem_cons_of_mem c hd)] <;>
        rintro rfl <;> exact absurd hc (by decide)

theorem leavesOpen_atom {a : Atom} (h : a.Spelled) :
    leavesOpen balance (a.chars ++ x) = leavesOpen balance x := by
  cases a with
  | number digits => exact leavesOpen_run (Atom.isWordChar_of_mem h nofun)
  | word name => exact leavesOpen_run (Atom.isWordChar_of_mem h nofun)
  | text contents =>
      have hstop : ∀ c, ('"' :: x).head? = some c → decide (c ≠ '"') = false := by
        intro c hc
        obtain rfl : '"' = c := by simpa using hc
        decide
      rw [Atom.chars, List.cons_append, List.append_assoc, List.singleton_append, leavesOpen,
        if_pos rfl, if_pos (by simp), dropWhile_run (Atom.quote_free h) hstop, List.tail_cons]

theorem leavesOpen_mark {c : Char} {token : Token} (h : Token.ofMark? c = some token) :
    leavesOpen balance (c :: x) = leavesOpen (balance + Reader.weight token) x := by
  rcases mark_cases h with ⟨rfl, rfl⟩ | ⟨rfl, rfl⟩ | ⟨rfl, rfl⟩
  · rw [leavesOpen, if_neg (by decide), if_neg (by decide), if_pos rfl]
    rfl
  · rw [leavesOpen, if_neg (by decide), if_neg (by decide), if_neg (by decide), if_pos rfl]
    rfl
  · rw [leavesOpen_plain (by decide) (by decide) (by decide) (by decide),
      show Reader.weight .comma = 0 from rfl, Int.add_zero]

theorem leavesOpen_unclosed {body : List Char} (h : '"' ∉ body) :
    leavesOpen balance ('"' :: body) = false := by
  rw [leavesOpen, if_pos rfl, if_neg (by simpa using h)]

end

theorem Reader.weight_atom (a : Atom) : Reader.weight a.token = 0 := by
  cases a <;> rfl

/-- The brackets that are counted are those among the tokens. -/
theorem leavesOpen_iff (place : Nat) (balance : Int) (chars : List Char) :
    leavesOpen balance chars = true ↔
      (∀ lexeme ∈ lexemesFrom place chars, lexeme.token ≠ .unclosed) ∧
        0 < balance + Reader.balance (lexemesFrom place chars) := by
  generalize htokens : lexemesFrom place chars = tokens
  induction tokens generalizing place balance chars with
  | nil =>
      have hlexed := lexed place chars
      rw [htokens] at hlexed
      cases hlexed with
      | silent gap hgap =>
          rw [← List.append_nil gap.chars, leavesOpen_gap hgap, leavesOpen, Reader.balance_nil]
          simp
  | cons lexeme tokens ih =>
      have hlexed := lexed place chars
      rw [htokens] at hlexed
      cases hlexed with
      | mark gap c token rest hmark hgap =>
          have hclosed : token ≠ .unclosed := by
            rcases mark_cases hmark with ⟨-, rfl⟩ | ⟨-, rfl⟩ | ⟨-, rfl⟩ <;> decide
          rw [leavesOpen_gap hgap, leavesOpen_mark hmark, ih _ _ _ rfl, List.forall_mem_cons,
            Reader.balance_cons, and_iff_right hclosed, Int.add_assoc]
      | atom gap a rest ha hgap =>
          have hclosed : a.token ≠ .unclosed := by cases a <;> rintro ⟨⟩
          obtain ⟨c, more, hcons, -⟩ := Atom.chars_eq_cons ha
          rw [leavesOpen_gap (by simpa [hcons] using hgap), leavesOpen_atom ha, ih _ _ _ rfl,
            List.forall_mem_cons, Reader.balance_cons, and_iff_right hclosed, Reader.weight_atom,
            Int.zero_add]
      | unclosed gap body hbody hgap =>
          rw [leavesOpen_gap hgap, leavesOpen_unclosed hbody]
          simp

/-- A program goes on behind a text if its tokens open more brackets than they close, and the
    text does not end inside quotation marks. -/
theorem goesOn_iff (text : String) :
    goesOn text = true ↔
      (∀ lexeme ∈ lexemes text, lexeme.token ≠ .unclosed) ∧ 0 < Reader.balance (lexemes text) := by
  rw [goesOn, leavesOpen_iff 0, Int.zero_add, lexemes]

/-! ### The parser -/

namespace Reader

variable {limit : Nat} {text : String} {s : Situation}

/-- Whether a text ends inside quotation marks. -/
def EndsQuoted (text : String) : Prop :=
  ∃ lexeme ∈ lexemes text, lexeme.token = .unclosed

/-- Behind a text that the reader passes through, a program goes on if calls are open. -/
theorem goesOn_iff_of_passes (h : Passes limit text.toList .initial (lexemes text) s) :
    goesOn text = true ↔ s.frames ≠ [] := by
  have hframes : (s.frames.length : Int) = balance (lexemes text) := by
    rw [h.length_frames]
    exact Int.zero_add _
  rw [goesOn_iff, ← hframes, and_iff_right h.closed, Int.natCast_pos, List.length_pos_iff]

theorem lexemes_ne_nil (h : isSilent text = false) : lexemes text ≠ [] := by
  simpa [isSilent] using h

/-- Nothing goes on behind a program. -/
theorem goesOn_of_parse {e : Expr} (h : Expr.parse limit text = .ok e) : goesOn text = false := by
  obtain ⟨level, hpasses⟩ := passes_of_parse h
  rw [← Bool.not_eq_true, goesOn_iff_of_passes hpasses]
  exact fun hframes => hframes rfl

/-- A text that is no program because it ends goes on. -/
theorem goesOn_of_mistake_at_end {cause : Mistake} {span : Span} (hsome : isSilent text = false)
    (h : Expr.parse limit text = .error (.mistake cause (some span)))
    (hend : span.start = text.length) : goesOn text = true := by
  obtain ⟨before, after, s, span', htokens, hpasses, hobstacle, hplace⟩ := exists_obstacle h
  obtain rfl := Option.some.inj hplace
  cases hobstacle with
  | ending hunfinished =>
      rw [List.append_nil] at htokens
      rw [← htokens] at hpasses
      rw [goesOn_iff_of_passes hpasses]
      exact (hpasses.unfinished_iff (lexemes_ne_nil hsome)).1 hunfinished
  | refused _ => exact absurd hend (Nat.ne_of_lt (start_lt_length htokens hpasses.closed))
  | extra _ => exact absurd hend (Nat.ne_of_lt (start_lt_length htokens hpasses.closed))

/-- The reader passes through a text that the next lines make a program. -/
theorem exists_passes_of_completed {more : String} {e : Expr}
    (hclosed : ∀ lexeme ∈ lexemes text, lexeme.token ≠ .unclosed)
    (h : Expr.parse limit (text ++ "\n" ++ more) = .ok e) :
    ∃ s, Passes limit text.toList .initial (lexemes text) s := by
  have hchars : (text ++ "\n" ++ more).toList = text.toList ++ '\n' :: more.toList := by
    simp
  obtain ⟨level, hpasses⟩ := passes_of_parse h
  rw [lexemes, hchars, lexemesFrom_newline hclosed] at hpasses
  obtain ⟨s, hpasses, -⟩ := hpasses.of_text.exists_between
  exact ⟨s, hpasses⟩

/-- Of a text that can be completed in the next lines and has a token, the console says that
    it goes on exactly if the parser makes a mistake of it.  In particular it says so of no
    program, and of every text whose mistake is that it ends. -/
theorem goesOn_iff_mistake (limit : Nat) (text : String) :
    (isSilent text = false → ¬EndsQuoted text →
        (∃ more e, Expr.parse limit (text ++ "\n" ++ more) = .ok e) →
        (goesOn text = true ↔ ∃ cause place, cause.category = .grammar ∧
          Expr.parse limit text = .error (.mistake cause place))) ∧
      (∀ e, Expr.parse limit text = .ok e → goesOn text = false) ∧
      ∀ cause span, isSilent text = false →
        Expr.parse limit text = .error (.mistake cause (some span)) →
        span.start = text.length → goesOn text = true := by
  refine ⟨?_, fun e h => goesOn_of_parse h,
    fun cause span hsome h hend => goesOn_of_mistake_at_end hsome h hend⟩
  rintro hsome hquoted ⟨more, e, hparse⟩
  have hclosed : ∀ lexeme ∈ lexemes text, lexeme.token ≠ .unclosed :=
    fun lexeme hmem htoken => hquoted ⟨lexeme, hmem, htoken⟩
  obtain ⟨s, hpasses⟩ := exists_passes_of_completed hclosed hparse
  rw [goesOn_iff_of_passes hpasses, ← hpasses.unfinished_iff (lexemes_ne_nil hsome)]
  rcases parse_of_passes hpasses with ⟨hunfinished, cause, hgrammar, hrefuse⟩ |
    ⟨hfinished, e, hok⟩
  · exact iff_of_true hunfinished ⟨cause, _, hgrammar, hrefuse⟩
  · refine iff_of_false hfinished ?_
    rintro ⟨cause, place, -, herror⟩
    rw [hok] at herror
    cases herror

/-- Brackets, hash signs and quotation marks in texts and comments hide from both. -/
theorem goesOn_iff_mistake_hidden :
    goesOn "f(\")#\" # )\"" = true ∧
      Expr.parse 1 "f(\")#\" # )\"" = .error (.mistake .openCall (some ⟨11, 11⟩)) ∧
      goesOn "f(\")#\" # )\"\n) # (" = false ∧ goesOn "f(a, # )" = true := by
  have hsome : isSilent "f(\")#\" # )\"" = false := by cbv
  have htokens : lexemes "f(\")#\" # )\"" =
      [⟨.word ['f'], 0, 1⟩, ⟨.opening, 1, 2⟩, ⟨.text [')', '#'], 2, 6⟩] := by cbv
  have hquoted : ¬EndsQuoted "f(\")#\" # )\"" := by
    rintro ⟨lexeme, hmem, htoken⟩
    rw [htokens] at hmem
    simp only [List.mem_cons, List.not_mem_nil, or_false] at hmem
    rcases hmem with rfl | rfl | rfl <;> cases htoken
  have hmistake : Expr.parse 1 "f(\")#\" # )\"" =
      .error (.mistake .openCall (some ⟨11, 11⟩)) := by cbv
  have hwhole : Expr.parse 1 ("f(\")#\" # )\"" ++ "\n" ++ ") # (") =
      .ok (.call (.name "f" ⟨0, 1⟩) [.literal (.string ")#") ⟨2, 6⟩] ⟨0, 13⟩) := by cbv
  have hcomma : Expr.parse 1 "f(a, # )" = .error (.mistake .endOfText (some ⟨8, 8⟩)) := by cbv
  obtain ⟨hiff, -, -⟩ := goesOn_iff_mistake 1 "f(\")#\" # )\""
  obtain ⟨-, hprogram, -⟩ := goesOn_iff_mistake 1 "f(\")#\" # )\"\n) # ("
  obtain ⟨-, -, hend⟩ := goesOn_iff_mistake 1 "f(a, # )"
  exact ⟨(hiff hsome hquoted ⟨_, _, hwhole⟩).2 ⟨_, _, rfl, hmistake⟩, hmistake,
    hprogram _ hwhole, hend _ _ (by cbv) hcomma rfl⟩

end Reader

end CallLang
