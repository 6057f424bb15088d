/-
  CallLang/Proofs/Lexing.lean
  ===========================
  **Tokens of written pieces.**

  The pieces that derivations are written with are found again by the tokens of
  the text: a gap has none (`lexemesFrom_gap`), a bracket or comma is one
  (`lexemesFrom_mark`), and so is an atom, if what comes behind it does not make
  it longer (`lexemesFrom_atom`).

  Conversely every text begins in one of four ways (`lexed`): it is a gap to its
  end, or a gap is followed by a mark, by an atom, or by a quotation mark without
  a partner.
-/
import CallLang.Proofs.Grammar

namespace CallLang.Grammar

/-! ### Runs of characters -/

theorem takeWhile_run {p : Char → Bool} {u x : List Char} (hu : ∀ c ∈ u, p c = true)
    (hx : ∀ c, x.head? = some c → p c = false) : (u ++ x).takeWhile p = u := by
  rw [List.takeWhile_append_of_pos hu]
  cases x with
  | nil => simp
  | cons c x => simp [hx c rfl]

theorem dropWhile_run {p : Char → Bool} {u x : List Char} (hu : ∀ c ∈ u, p c = true)
    (hx : ∀ c, x.head? = some c → p c = false) : (u ++ x).dropWhile p = x := by
  rw [List.dropWhile_append_of_pos hu]
  cases x with
  | nil => rfl
  | cons c x => simp [hx c rfl]

theorem head?_dropWhile_stop {p : Char → Bool} {x : List Char} :
    ∀ c, (x.dropWhile p).head? = some c → p c = false := by
  intro c hc
  have hnot := List.head?_dropWhile_not p x
  rw [hc] at hnot
  exact hnot

/-! ### From pieces to tokens -/

theorem lexemesFrom_filler {filler : Filler} {x : List Char} (place : Nat)
    (h : filler.Before x.head?) :
    lexemesFrom place (filler.chars ++ x) = lexemesFrom (place + filler.chars.length) x := by
  cases filler with
  | blank c =>
      have hblank : Text.isBlank c = true := h
      rw [Filler.chars, List.cons_append, lexemesFrom, if_pos hblank]
      rfl
  | comment body =>
      have hrun := newline_free h.1
      have hstop : ∀ c, x.head? = some c → decide (c ≠ '\n') = false := by
        intro c hc
        have hline : EndsLine (some c) := hc ▸ h.2
        simpa [EndsLine] using hline
      rw [Filler.chars, List.cons_append, lexemesFrom,
        if_neg (show ¬Text.isBlank '#' = true by decide), if_pos rfl]
      simp only [takeWhile_run hrun hstop, dropWhile_run hrun hstop, List.length_cons]
      congr 1
      omega

/-- A gap holds no token. -/
theorem lexemesFrom_gap {gap : Gap} {x : List Char} (place : Nat) (h : gap.Before x.head?) :
    lexemesFrom place (gap.chars ++ x) = lexemesFrom (place + gap.chars.length) x := by
  induction gap generalizing place with
  | nil => rfl
  | cons filler gap ih =>
      have hfiller : filler.Before (Gap.chars gap ++ x).head? := by
        rw [List.head?_append]
        exact h.1
      rw [Gap.chars, List.append_assoc, lexemesFrom_filler place hfiller, ih _ h.2,
        List.length_append, Nat.add_assoc]

theorem mark_cases {c : Char} {token : Token} (h : Token.ofMark? c = some token) :
    (c = '(' ∧ token = .opening) ∨ (c = ')' ∧ token = .closing) ∨ (c = ',' ∧ token = .comma) := by
  unfold Token.ofMark? at h
  split_ifs at h with hopening hclosing hcomma
  · exact .inl ⟨hopening, (Option.some.inj h).symm⟩
  · exact .inr (.inl ⟨hclosing, (Option.some.inj h).symm⟩)
  · exact .inr (.inr ⟨hcomma, (Option.some.inj h).symm⟩)

/-- A bracket or comma is a token. -/
theorem lexemesFrom_mark {c : Char} (token : Token) (place : Nat) (x : List Char)
    (h : Token.ofMark? c = some token) :
    lexemesFrom place (c :: x) =
      { token, start := place, stop := place + 1 } :: lexemesFrom (place + 1) x := by
  have hskip : Text.isBlank c = false ∧ c ≠ '#' ∧ c ≠ '"' := by
    rcases mark_cases h with ⟨rfl, -⟩ | ⟨rfl, -⟩ | ⟨rfl, -⟩ <;> decide
  rw [lexemesFrom, if_neg (by simp [hskip.1]), if_neg hskip.2.1, if_neg hskip.2.2]
  simp only [h]

/-- The token of an atom. -/
def Atom.token : Atom → Token
  | .text contents => .text contents
  | .number digits => .numeral digits
  | .word name => .word name

theorem lexemesFrom_text {contents : List Char} (place : Nat) (x : List Char)
    (h : '"' ∉ contents) :
    lexemesFrom place ((Atom.text contents).chars ++ x) =
      { token := .text contents, start := place,
        stop := place + (Atom.text contents).chars.length } ::
      lexemesFrom (place + (Atom.text contents).chars.length) x := by
  have hrun := Atom.quote_free h
  have hstop : ∀ c, ('"' :: x).head? = some c → decide (c ≠ '"') = false := by
    intro c hc
    obtain rfl : '"' = c := by simpa using hc
    decide
  have hlength : place + 1 + contents.length + 1 =
      place + (Atom.text contents).chars.length := by
    simp only [Atom.chars, List.length_cons, List.length_append, List.length_nil]
    omega
  rw [Atom.chars, List.cons_append, List.append_assoc, lexemesFrom,
    if_neg (show ¬Text.isBlank '"' = true by decide), if_neg (by decide), if_pos rfl]
  simp only [List.cons_append, List.nil_append, takeWhile_run hrun hstop, hlength]
  split
  · rename_i hrest
    rw [dropWhile_run hrun hstop] at hrest
    simp at hrest
  · rename_i d after hrest
    rw [dropWhile_run hrun hstop] at hrest
    obtain ⟨-, rfl⟩ := List.cons.inj hrest
    rfl

/-- The first character of a number or word is neither blank nor a mark. -/
theorem lexemesFrom_run {c : Char} (place : Nat) (x : List Char) (h : isWordChar c = true) :
    lexemesFrom place (c :: x) =
      if c.isDigit && !((x.dropWhile Char.isDigit).head?.any joinsDigits) then
        { token := .numeral (c :: x.takeWhile Char.isDigit), start := place,
          stop := place + 1 + (x.takeWhile Char.isDigit).length } ::
          lexemesFrom (place + 1 + (x.takeWhile Char.isDigit).length)
            (x.dropWhile Char.isDigit)
      else
        { token := .word (c :: x.takeWhile isWordChar), start := place,
          stop := place + 1 + (x.takeWhile isWordChar).length } ::
          lexemesFrom (place + 1 + (x.takeWhile isWordChar).length)
            (x.dropWhile isWordChar) := by
  have hstart : StartsAtom c := .inl h
  have hquote : c ≠ '"' := by
    rintro rfl
    exact absurd h (by decide)
  have hmark : Token.ofMark? c = none := by
    obtain ⟨hopening, hclosing, hcomma⟩ := hstart.not_mark
    simp [Token.ofMark?, hopening, hclosing, hcomma]
  rw [lexemesFrom, if_neg (by simp [hstart.not_blank.1]), if_neg hstart.not_blank.2,
    if_neg hquote]
  simp only [hmark]

theorem joinsDigits_of_isDigit {c : Char} (h : c.isDigit = true) : joinsDigits c = true := by
  simp [joinsDigits, Char.isAlphanum, h]

theorem joinsDigits_iff {c : Char} (h : c.isDigit = false) :
    joinsDigits c = true ↔ c.isAlpha = true ∨ c = '_' := by
  simp [joinsDigits, Char.isAlphanum, h]

theorem isWordChar_of_joinsDigits {c : Char} (h : joinsDigits c = true) :
    isWordChar c = true := by
  simp only [joinsDigits, Bool.or_eq_true, decide_eq_true_eq] at h
  rcases h with h | rfl
  · exact isWordChar_of_isAlphanum h
  · decide

theorem EndsWord.not_joinsDigits {x : List Char} (h : EndsWord x) :
    x.head?.any joinsDigits = false := by
  cases hhead : x.head? with
  | none => rfl
  | some c =>
      by_contra hjoins
      have hword := isWordChar_of_joinsDigits (c := c) (by simpa using hjoins)
      rw [h c hhead] at hword
      exact absurd hword (by decide)

/-- The digits that a word begins with run into a letter or an underscore. -/
theorem joins_of_spelled_word {c : Char} {name x : List Char}
    (h : (Atom.word (c :: name)).Spelled) :
    (c.isDigit && !((name ++ x).dropWhile Char.isDigit).head?.any joinsDigits) = false := by
  cases hdigit : c.isDigit with
  | false => rfl
  | true =>
      obtain ⟨-, -, hlead | ⟨d, hd, hletter⟩⟩ := h
      · simp [hdigit] at hlead
      · rw [List.dropWhile_cons, if_pos hdigit] at hd
        have hjoins : joinsDigits d = true := (joinsDigits_iff (head?_dropWhile_stop d hd)).2 hletter
        have hne : (name.dropWhile Char.isDigit).isEmpty = false := by
          cases hempty : name.dropWhile Char.isDigit with
          | nil => simp [hempty] at hd
          | cons e rest => rfl
        simp [List.dropWhile_append, hne, List.head?_append, hd, hjoins]

/-- Whether a character, or the end of the text, does not make an atom before it
    longer. -/
def Atom.EndsBefore : Atom → Option Char → Prop
  | .text _, _ => True
  | .number _, next => next.any joinsDigits = false
  | .word _, next => next.any isWordChar = false

theorem EndsWord.endsBefore {x : List Char} (h : EndsWord x) (a : Atom) :
    a.EndsBefore x.head? := by
  cases a with
  | text contents => trivial
  | number digits => exact h.not_joinsDigits
  | word name => exact (Option.any_eq_false _ _).2 h

/-- An atom is a token if what comes behind it does not make it longer. -/
theorem lexemesFrom_ended {a : Atom} {x : List Char} (place : Nat) (ha : a.Spelled)
    (hx : a.EndsBefore x.head?) :
    lexemesFrom place (a.chars ++ x) =
      { token := a.token, start := place, stop := place + a.chars.length } ::
      lexemesFrom (place + a.chars.length) x := by
  cases a with
  | text contents => exact lexemesFrom_text place x ha
  | number digits =>
      obtain ⟨hne, hdigits⟩ := ha
      obtain ⟨c, rest, rfl⟩ := List.exists_cons_of_ne_nil hne
      have hrest : ∀ d ∈ rest, d.isDigit = true := fun d hd => hdigits d (by simp [hd])
      have hc : c.isDigit = true := hdigits c (by simp)
      have hjoins : x.head?.any joinsDigits = false := hx
      have hstop : ∀ d, x.head? = some d → d.isDigit = false := by
        intro d hd
        by_contra hdigit
        rw [hd, Option.any_some, joinsDigits_of_isDigit (by simpa using hdigit)] at hjoins
        exact absurd hjoins (by decide)
      rw [Atom.chars, List.cons_append, lexemesFrom_run place _ (isWordChar_of_isDigit hc),
        dropWhile_run hrest hstop, takeWhile_run hrest hstop, hjoins, hc, if_pos (by rfl),
        List.length_cons, Atom.token, Nat.add_right_comm, Nat.add_assoc]
  | word name =>
      obtain ⟨hne, hname, -⟩ := id ha
      obtain ⟨c, rest, rfl⟩ := List.exists_cons_of_ne_nil hne
      have hrest : ∀ d ∈ rest, isWordChar d = true := fun d hd => hname d (by simp [hd])
      have hstop : ∀ d, x.head? = some d → isWordChar d = false := (Option.any_eq_false _ _).1 hx
      rw [Atom.chars, List.cons_append, lexemesFrom_run place _ (hname c (by simp)),
        dropWhile_run hrest hstop, takeWhile_run hrest hstop, joins_of_spelled_word ha,
        if_neg (by decide), List.length_cons, Atom.token, Nat.add_right_comm, Nat.add_assoc]

/-- An atom is a token if what comes behind it does not go on with a word. -/
theorem lexemesFrom_atom {a : Atom} {x : List Char} (place : Nat) (ha : a.Spelled)
    (hx : EndsWord x) :
    lexemesFrom place (a.chars ++ x) =
      { token := a.token, start := place, stop := place + a.chars.length } ::
      lexemesFrom (place + a.chars.length) x :=
  lexemesFrom_ended place ha (hx.endsBefore a)

/-! ### From tokens to pieces -/

/-- The ways in which a text from a place on begins, with its tokens. -/
inductive Lexed (place : Nat) : List Char → List Lexeme → Prop where
  | silent (gap : Gap) (hgap : gap.Before none) : Lexed place gap.chars []
  | mark (gap : Gap) (c : Char) (token : Token) (rest : List Char)
      (hmark : Token.ofMark? c = some token) (hgap : gap.Before (some c)) :
      Lexed place (gap.chars ++ c :: rest)
        ({ token, start := place + gap.chars.length, stop := place + gap.chars.length + 1 } ::
          lexemesFrom (place + gap.chars.length + 1) rest)
  | atom (gap : Gap) (atom : Atom) (rest : List Char) (hatom : atom.Spelled)
      (hgap : gap.Before atom.chars.head?) (hend : atom.EndsBefore rest.head?) :
      Lexed place (gap.chars ++ (atom.chars ++ rest))
        ({ token := atom.token, start := place + gap.chars.length,
           stop := place + gap.chars.length + atom.chars.length } ::
          lexemesFrom (place + gap.chars.length + atom.chars.length) rest)
  | unclosed (gap : Gap) (body : List Char) (hbody : '"' ∉ body)
      (hgap : gap.Before (some '"')) :
      Lexed place (gap.chars ++ '"' :: body)
        [{ token := .unclosed, start := place + gap.chars.length,
           stop := place + gap.chars.length + 1 + body.length }]

/-- Fillers before a text do not change how it begins. -/
theorem Lexed.filler (filler : Filler) {place : Nat} {x : List Char} {lexemes : List Lexeme}
    (h : Lexed (place + filler.chars.length) x lexemes) (hfiller : filler.Before x.head?) :
    Lexed place (filler.chars ++ x) lexemes := by
  have hlength : ∀ gap : Gap, place + filler.chars.length + gap.chars.length =
      place + (Gap.chars (filler :: gap)).length := by
    intro gap
    rw [Gap.chars, List.length_append, Nat.add_assoc]
  have hbefore : ∀ {gap : Gap} {y : List Char}, filler.Before (gap.chars ++ y).head? →
      gap.Before y.head? → Gap.Before (filler :: gap) y.head? := by
    intro gap y hhead hgap
    exact ⟨by rwa [← List.head?_append], hgap⟩
  cases h with
  | silent gap hgap =>
      rw [show filler.chars ++ gap.chars = Gap.chars (filler :: gap) from rfl]
      exact .silent _ (hbefore (y := []) (by rwa [List.append_nil]) hgap)
  | mark gap c token rest hmark hgap =>
      rw [← List.append_assoc, hlength]
      exact .mark (filler :: gap) c token rest hmark (hbefore (y := c :: rest) hfiller hgap)
  | atom gap atom rest hatom hgap hend =>
      obtain ⟨c, more, hcons, -⟩ := Atom.chars_eq_cons hatom
      have hhead : (atom.chars ++ rest).head? = atom.chars.head? := by simp [hcons]
      rw [← List.append_assoc, hlength]
      refine .atom (filler :: gap) atom rest hatom ?_ hend
      rw [← hhead]
      exact hbefore hfiller (by rwa [hhead])
  | unclosed gap body hbody hgap =>
      rw [← List.append_assoc, hlength]
      exact .unclosed (filler :: gap) body hbody (hbefore (y := '"' :: body) hfiller hgap)

/-- A word that reading takes is one that the grammar spells. -/
theorem spelled_word {c : Char} {x : List Char} (hc : isWordChar c = true)
    (hjoins : (c.isDigit && !(x.dropWhile Char.isDigit).head?.any joinsDigits) = false) :
    (Atom.word (c :: x.takeWhile isWordChar)).Spelled := by
  refine ⟨by simp, ?_, ?_⟩
  · intro d hd
    rcases List.mem_cons.1 hd with rfl | hd
    · exact hc
    · exact List.mem_takeWhile_imp hd
  · cases hdigit : c.isDigit with
    | false => exact .inl (by simp [hdigit])
    | true =>
        right
        obtain ⟨d, rest, hdrop⟩ : ∃ d rest, x.dropWhile Char.isDigit = d :: rest := by
          cases hdrop : x.dropWhile Char.isDigit with
          | nil => simp [hdigit, hdrop] at hjoins
          | cons d rest => exact ⟨d, rest, rfl⟩
        have hd : d.isDigit = false := head?_dropWhile_stop d (by rw [hdrop]; rfl)
        have hjoins' : joinsDigits d = true := by simpa [hdigit, hdrop] using hjoins
        have hdigits : ∀ e ∈ x.takeWhile Char.isDigit, e.isDigit = true :=
          fun e he => List.mem_takeWhile_imp he
        have hsplit : x = x.takeWhile Char.isDigit ++ d :: rest := by
          rw [← hdrop, List.takeWhile_append_dropWhile]
        refine ⟨d, ?_, (joinsDigits_iff hd).1 hjoins'⟩
        rw [hsplit, List.takeWhile_append_of_pos fun e he => isWordChar_of_isDigit (hdigits e he),
          List.takeWhile_cons, if_pos (isWordChar_of_joinsDigits hjoins'), List.dropWhile_cons,
          if_pos hdigit, List.dropWhile_append_of_pos hdigits, List.dropWhile_cons,
          if_neg (by simp [hd])]
        rfl

theorem spelled_number {c : Char} {x : List Char} (hc : c.isDigit = true) :
    (Atom.number (c :: x.takeWhile Char.isDigit)).Spelled := by
  refine ⟨by simp, ?_⟩
  intro d hd
  rcases List.mem_cons.1 hd with rfl | hd
  · exact hc
  · exact List.mem_takeWhile_imp hd

theorem comment_before (x : List Char) :
    (Filler.comment (x.takeWhile (· ≠ '\n'))).Before (x.dropWhile (· ≠ '\n')).head? := by
  refine ⟨fun hmem => by simpa using List.mem_takeWhile_imp hmem, ?_⟩
  cases hhead : (x.dropWhile (· ≠ '\n')).head? with
  | none => trivial
  | some c => simpa [EndsLine] using head?_dropWhile_stop c hhead

theorem isWordChar_of_unmarked {c : Char} (hblank : ¬Text.isBlank c = true) (hhash : c ≠ '#')
    (hquote : c ≠ '"') (hmark : Token.ofMark? c = none) : isWordChar c = true := by
  have hnot : c ≠ '(' ∧ c ≠ ')' ∧ c ≠ ',' := by
    refine ⟨?_, ?_, ?_⟩ <;> rintro rfl <;> exact absurd hmark (by decide)
  simp [isWordChar, isPunctuation, hblank, hhash, hquote, hnot]

/-- A text may begin with an atom. -/
theorem Lexed.atAtom (place : Nat) {a : Atom} (rest : List Char) (h : a.Spelled)
    (hend : a.EndsBefore rest.head?) :
    Lexed place (a.chars ++ rest)
      ({ token := a.token, start := place, stop := place + a.chars.length } ::
        lexemesFrom (place + a.chars.length) rest) :=
  .atom [] a rest h trivial hend

/-- Every text begins in one of the four ways. -/
theorem lexed (place : Nat) (text : List Char) : Lexed place text (lexemesFrom place text) := by
  have hquotes : ∀ rest : List Char, ∀ c ∈ rest.takeWhile (· ≠ '"'), c ≠ '"' := by
    intro rest c hc
    simpa using List.mem_takeWhile_imp hc
  fun_induction lexemesFrom place text with
  | case1 place => exact .silent [] trivial
  | case2 place c rest hblank ih => exact Lexed.filler (.blank c) ih hblank
  | case3 place rest comment hblank ih =>
      have hplace : place + 1 + comment.length =
          place + (Filler.comment comment).chars.length := by
        simp only [Filler.chars, List.length_cons]
        omega
      have htext : '#' :: rest =
          (Filler.comment comment).chars ++ rest.dropWhile (· ≠ '\n') := by
        rw [Filler.chars, List.cons_append, List.takeWhile_append_dropWhile]
      rw [htext]
      exact Lexed.filler (.comment comment) (hplace ▸ ih) (comment_before rest)
  | case4 place rest contents stop hrest =>
      have hcontents : contents = rest := by
        rw [← List.takeWhile_append_dropWhile (p := (· ≠ '"')) (l := rest), hrest,
          List.append_nil]
      have hbody : '"' ∉ rest := by
        intro hmem
        have hmem' : '"' ∈ contents := by rwa [hcontents]
        exact hquotes rest '"' hmem' rfl
      rw [show stop = place + 1 + rest.length from congrArg (place + 1 + ·.length) hcontents]
      exact .unclosed [] rest hbody trivial
  | case5 place rest contents stop c after hrest hblank hhash ih =>
      have hc : c = '"' := by
        have hstop : decide (c ≠ '"') = false := head?_dropWhile_stop c (by rw [hrest]; rfl)
        simpa using hstop
      have htext : '"' :: rest = (Atom.text contents).chars ++ after := by
        rw [Atom.chars, List.cons_append, List.append_assoc, ← hc, List.singleton_append,
          ← hrest, List.takeWhile_append_dropWhile]
      have hplace : stop + 1 = place + (Atom.text contents).chars.length := by
        simp only [stop, Atom.chars, List.length_cons, List.length_append, List.length_nil]
        omega
      rw [htext, hplace]
      exact Lexed.atAtom place after (fun hmem => hquotes rest '"' hmem rfl) trivial
  | case6 place c rest hblank hhash hquote token hmark ih =>
      exact .mark [] c token rest hmark trivial
  | case7 place c rest hblank hhash hquote hmark digits hdigits stop ih =>
      have htext : c :: rest =
          (Atom.number (c :: digits)).chars ++ rest.dropWhile Char.isDigit := by
        rw [Atom.chars, List.cons_append, List.takeWhile_append_dropWhile]
      have hplace : stop = place + (Atom.number (c :: digits)).chars.length := by
        simp only [stop, Atom.chars, List.length_cons]
        omega
      rw [htext, hplace]
      obtain ⟨hc, hjoins⟩ := Bool.and_eq_true_iff.1 hdigits
      exact Lexed.atAtom place _ (spelled_number hc) (by simpa [Atom.EndsBefore] using hjoins)
  | case8 place c rest hblank hhash hquote hmark hword name stop ih =>
      have hc : isWordChar c = true := isWordChar_of_unmarked hblank hhash hquote hmark
      have htext : c :: rest = (Atom.word (c :: name)).chars ++ rest.dropWhile isWordChar := by
        rw [Atom.chars, List.cons_append, List.takeWhile_append_dropWhile]
      have hplace : stop = place + (Atom.word (c :: name)).chars.length := by
        simp only [stop, Atom.chars, List.length_cons]
        omega
      rw [htext, hplace]
      exact Lexed.atAtom place _ (spelled_word hc (by simpa using hword))
        ((Option.any_eq_false _ _).2 head?_dropWhile_stop)

/-! ### The first token -/

variable {place : Nat} {chars : List Char} {lexeme : Lexeme} {after : List Lexeme}

/-- Where the first token is a bracket or comma, the text has this mark behind a
    gap. -/
theorem eq_mark_of_lexemes {c : Char} {token : Token} (hc : Token.ofMark? c = some token)
    (h : lexemesFrom place chars = lexeme :: after) (htoken : lexeme.token = token) :
    ∃ (gap : Gap) (rest : List Char), gap.Before (some c) ∧ chars = gap.chars ++ c :: rest ∧
      lexeme.stop = place + gap.chars.length + 1 ∧
      after = lexemesFrom (place + gap.chars.length + 1) rest := by
  have hlexed := lexed place chars
  rw [h] at hlexed
  cases hlexed with
  | mark gap d other rest hmark hgap =>
      obtain rfl : other = token := htoken
      have hsame : d = c := by
        rcases mark_cases hmark with ⟨rfl, rfl⟩ | ⟨rfl, rfl⟩ | ⟨rfl, rfl⟩ <;>
          rcases mark_cases hc with ⟨rfl, h⟩ | ⟨rfl, h⟩ | ⟨rfl, h⟩ <;> first | rfl | cases h
      subst hsame
      exact ⟨gap, rest, hgap, rfl, rfl, rfl⟩
  | atom gap a rest ha hgap =>
      rcases mark_cases hc with ⟨-, rfl⟩ | ⟨-, rfl⟩ | ⟨-, rfl⟩ <;> cases a <;> cases htoken
  | unclosed gap body hbody hgap =>
      rcases mark_cases hc with ⟨-, rfl⟩ | ⟨-, rfl⟩ | ⟨-, rfl⟩ <;> cases htoken

/-- Every text is a gap and what follows it, and the first token begins there. -/
theorem exists_gap (place : Nat) (chars : List Char) :
    ∃ (gap : Gap) (rest : List Char), gap.Before rest.head? ∧ EndsGap rest ∧
      chars = gap.chars ++ rest ∧
      ∀ lexeme ∈ (lexemesFrom place chars).head?, lexeme.start = place + gap.chars.length := by
  have hlexed := lexed place chars
  generalize lexemesFrom place chars = lexemes at hlexed ⊢
  cases hlexed with
  | silent gap hgap =>
      exact ⟨gap, [], hgap, endsPhrase_nil.endsGap, (List.append_nil _).symm, nofun⟩
  | mark gap c token rest hmark hgap =>
      refine ⟨gap, c :: rest, hgap, ?_, rfl, by simp⟩
      rcases mark_cases hmark with ⟨rfl, -⟩ | ⟨rfl, -⟩ | ⟨rfl, -⟩ <;>
        exact endsGap_cons (by decide) (by decide)
  | atom gap a rest ha hgap =>
      obtain ⟨c, more, hcons, hstart⟩ := Atom.chars_eq_cons ha
      refine ⟨gap, a.chars ++ rest, by simpa [hcons] using hgap, ?_, rfl, by simp⟩
      rw [hcons]
      exact endsGap_cons hstart.not_blank.1 hstart.not_blank.2
  | unclosed gap body hbody hgap =>
      exact ⟨gap, '"' :: body, hgap, endsGap_cons (by decide) (by decide), rfl, by simp⟩

/-- A gap is over where the first token begins. -/
theorem exists_gap_of_lexemes (h : lexemesFrom place chars = lexeme :: after) :
    ∃ (gap : Gap) (rest : List Char), gap.Before rest.head? ∧ EndsGap rest ∧
      chars = gap.chars ++ rest ∧ lexeme.start = place + gap.chars.length := by
  obtain ⟨gap, rest, hgap, hrest, hchars, hstart⟩ := exists_gap place chars
  rw [h] at hstart
  exact ⟨gap, rest, hgap, hrest, hchars, hstart lexeme rfl⟩

theorem start_of_endsGap (hchars : EndsGap chars)
    (h : lexemesFrom place chars = lexeme :: after) : lexeme.start = place := by
  obtain ⟨gap, rest, hgap, hrest, heq, hstart⟩ := exists_gap_of_lexemes h
  obtain ⟨rfl, -⟩ := Gap.append_inj (h := []) hgap trivial hrest hchars heq.symm
  simpa [Gap.chars] using hstart

theorem eq_nil_of_endsGap (hchars : EndsGap chars) (h : lexemesFrom place chars = []) :
    chars = [] := by
  have hlexed := lexed place chars
  rw [h] at hlexed
  cases hlexed with
  | silent gap hgap =>
      have heq : gap.chars ++ [] = Gap.chars [] ++ gap.chars := by
        rw [List.append_nil, Gap.chars, List.nil_append]
      exact (Gap.append_inj (h := []) hgap trivial endsPhrase_nil.endsGap hchars heq).2.symm

end CallLang.Grammar
