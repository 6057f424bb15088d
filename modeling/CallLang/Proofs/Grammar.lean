/-
  CallLang/Proofs/Grammar.lean
  ============================
  **The grammar of programs.**

  A derivation of a program is kept as data: which blanks and comments stand
  where, which characters make up every atom, and which brackets and commas
  belong together.  `chars` writes a derivation out, `Proper` says that its parts
  are what the grammar wants, and `expr` is the tree that it stands for, every
  node with the place of its text.

  An expression is an atom followed by any number of argument lists, so the
  derivation of a chain of calls is a list, while its tree leans to the left.

  A gap is described together with the character behind it, for a comment runs
  to the end of its line: a comment that a bracket follows on the same line would
  swallow the bracket.  With this condition the grammar is unambiguous, as
  `Derivation.eq_of_chars_eq` states: one text has one derivation at most.
-/
import CallLang.Expr.Reader
import Mathlib

namespace CallLang.Grammar

/-! ### Gaps -/

/-- A piece of the space between tokens. -/
inductive Filler where
  | blank (c : Char)
  /-- The characters between a hash sign and the end of its line. -/
  | comment (body : List Char)
deriving DecidableEq, Repr

/-- The space between two tokens, in the order of the text. -/
abbrev Gap := List Filler

def Filler.chars : Filler → List Char
  | .blank c => [c]
  | .comment body => '#' :: body

def Gap.chars : Gap → List Char
  | [] => []
  | filler :: gap => filler.chars ++ Gap.chars gap

/-- Whether a line ends before what comes next: a line feed or nothing at all. -/
def EndsLine : Option Char → Prop
  | none => True
  | some c => c = '\n'

/-- A filler that is proper before what comes next.  A comment goes on to the end
    of its line. -/
def Filler.Before : Filler → Option Char → Prop
  | .blank c, _ => Text.isBlank c = true
  | .comment body, next => '\n' ∉ body ∧ EndsLine next

def Gap.Before : Gap → Option Char → Prop
  | [], _ => True
  | filler :: gap, next => filler.Before ((Gap.chars gap).head?.or next) ∧ Gap.Before gap next

/-! ### Atoms -/

inductive Atom where
  /-- The characters between two quotation marks. -/
  | text (contents : List Char)
  | number (digits : List Char)
  | word (name : List Char)
deriving DecidableEq, Repr

namespace Atom

def chars : Atom → List Char
  | .text contents => '"' :: (contents ++ ['"'])
  | .number digits => digits
  | .word name => name

/-- Which characters make up an atom.  A word may begin with digits only if a letter
    or an underscore comes right behind them. -/
def Spelled : Atom → Prop
  | .text contents => '"' ∉ contents
  | .number digits => digits ≠ [] ∧ ∀ c ∈ digits, c.isDigit = true
  | .word name =>
    name ≠ [] ∧ (∀ c ∈ name, isWordChar c = true) ∧
      (name.takeWhile Char.isDigit = [] ∨
        ∃ c, (name.dropWhile Char.isDigit).head? = some c ∧ (c.isAlpha = true ∨ c = '_'))

def Short : Atom → Prop
  | .number digits => digits.length ≤ maxDigits
  | _ => True

/-- What the grammar wants of an atom. -/
def Proper (atom : Atom) : Prop :=
  atom.Spelled ∧ atom.Short

/-- The number that digits denote in the decimal system. -/
def decimal (digits : List Char) : Nat :=
  Nat.ofDigits 10 (digits.reverse.map fun c => c.toNat - '0'.toNat)

/-- The leaf of an atom that begins at a place. -/
def expr (place : Nat) (atom : Atom) : Expr :=
  let span : Span := ⟨place, place + atom.chars.length⟩
  match atom with
  | .text contents => .literal (.string (String.ofList contents)) span
  | .number digits => .literal (.int (decimal digits)) span
  | .word name => .name (String.ofList name) span

end Atom

/-! ### Expressions -/

mutual

/-- An expression: an atom and the argument lists behind it. -/
inductive Phrase where
  | mk (atom : Atom) (calls : Calls)

/-- Argument lists one after the other, each with the gap before its bracket. -/
inductive Calls where
  | none
  | call (gap : Gap) (operands : Operands) (more : Calls)

/-- What stands between the brackets of an argument list. -/
inductive Operands where
  | none (gap : Gap)
  | some (slots : Slots)

/-- Arguments with the gaps around them, separated by commas. -/
inductive Slots where
  | last (before : Gap) (phrase : Phrase) (after : Gap)
  | more (before : Gap) (phrase : Phrase) (after : Gap) (rest : Slots)

end

mutual

def Phrase.chars : Phrase → List Char
  | .mk atom calls => atom.chars ++ calls.chars

def Calls.chars : Calls → List Char
  | .none => []
  | .call gap operands more =>
    gap.chars ++ '(' :: (operands.chars ++ ')' :: more.chars)

def Operands.chars : Operands → List Char
  | .none gap => gap.chars
  | .some slots => slots.chars

def Slots.chars : Slots → List Char
  | .last before phrase after => before.chars ++ (phrase.chars ++ after.chars)
  | .more before phrase after rest =>
    before.chars ++ (phrase.chars ++ (after.chars ++ ',' :: rest.chars))

end

mutual

def Phrase.Proper : Phrase → Prop
  | .mk atom calls => atom.Proper ∧ calls.Proper

def Calls.Proper : Calls → Prop
  | .none => True
  | .call gap operands more =>
    gap.Before (some '(') ∧ operands.Proper ∧ more.Proper

def Operands.Proper : Operands → Prop
  | .none gap => gap.Before (some ')')
  | .some slots => slots.Proper

def Slots.Proper : Slots → Prop
  | .last before phrase after =>
    before.Before phrase.chars.head? ∧ phrase.Proper ∧ after.Before (some ')')
  | .more before phrase after rest =>
    before.Before phrase.chars.head? ∧ phrase.Proper ∧ after.Before (some ',') ∧ rest.Proper

end

mutual

def Phrase.expr (place : Nat) : Phrase → Expr
  | .mk atom calls => calls.applied (place + atom.chars.length) (atom.expr place)

/-- The tree of an operator that is called with argument lists.  The first one
    begins at a place, together with the gap before it. -/
def Calls.applied (place : Nat) (operator : Expr) : Calls → Expr
  | .none => operator
  | .call gap operands more =>
    let inside := place + gap.chars.length + 1
    let stop := inside + operands.chars.length + 1
    more.applied stop (.call operator (operands.exprs inside) ⟨operator.span.start, stop⟩)

def Operands.exprs (place : Nat) : Operands → List Expr
  | .none _ => []
  | .some slots => slots.exprs place

def Slots.exprs (place : Nat) : Slots → List Expr
  | .last before phrase _ => [phrase.expr (place + before.chars.length)]
  | .more before phrase after rest =>
    let start := place + before.chars.length
    phrase.expr start ::
      rest.exprs (start + phrase.chars.length + after.chars.length + 1)

end

/-- A program: one expression and the gaps around it. -/
structure Derivation where
  before : Gap
  phrase : Phrase
  after : Gap

namespace Derivation

def chars (d : Derivation) : List Char :=
  d.before.chars ++ (d.phrase.chars ++ d.after.chars)

/-- What the grammar wants of a program.  Its last comment may end with the
    text. -/
def Proper (d : Derivation) : Prop :=
  d.before.Before d.phrase.chars.head? ∧ d.phrase.Proper ∧ d.after.Before none

def expr (d : Derivation) : Expr :=
  d.phrase.expr d.before.chars.length

/-- Whether a text is written by the grammar in this way. -/
def Derives (d : Derivation) (text : String) : Prop :=
  d.Proper ∧ d.chars = text.toList

end Derivation

/-! ### Where tokens end -/

/-- A text cannot make a word before it longer. -/
def EndsWord (text : List Char) : Prop :=
  ∀ c, text.head? = some c → isWordChar c = false

/-- A text cannot make a gap before it longer. -/
def EndsGap (text : List Char) : Prop :=
  ∀ c, text.head? = some c → Text.isBlank c = false ∧ c ≠ '#'

/-- A text cannot go on with an expression before it: it is over, or a bracket or
    comma closes the expression. -/
def EndsPhrase (text : List Char) : Prop :=
  ∀ c, text.head? = some c → c = ')' ∨ c = ','

/-- Characters with which an atom begins. -/
def StartsAtom (c : Char) : Prop :=
  isWordChar c = true ∨ c = '"'

theorem StartsAtom.not_blank {c : Char} (h : StartsAtom c) :
    Text.isBlank c = false ∧ c ≠ '#' := by
  rcases h with h | rfl
  · simp only [isWordChar, isPunctuation, Bool.and_eq_true, Bool.not_eq_true',
      Bool.or_eq_false_iff, decide_eq_false_iff_not] at h
    exact ⟨h.1, h.2.1.2⟩
  · decide

theorem StartsAtom.not_mark {c : Char} (h : StartsAtom c) : c ≠ '(' ∧ c ≠ ')' ∧ c ≠ ',' := by
  rcases h with h | rfl
  · refine ⟨?_, ?_, ?_⟩ <;> rintro rfl <;> exact absurd h (by decide)
  · decide

theorem EndsPhrase.endsGap {text : List Char} (h : EndsPhrase text) : EndsGap text := by
  intro c hc
  rcases h c hc with rfl | rfl <;> decide

theorem EndsPhrase.endsWord {text : List Char} (h : EndsPhrase text) : EndsWord text := by
  intro c hc
  rcases h c hc with rfl | rfl <;> decide

theorem endsGap_cons {c : Char} {text : List Char} (hblank : Text.isBlank c = false)
    (hhash : c ≠ '#') : EndsGap (c :: text) := by
  intro d hd
  obtain rfl : c = d := by simpa using hd
  exact ⟨hblank, hhash⟩

theorem endsPhrase_nil : EndsPhrase [] := by
  intro c hc
  simp at hc

theorem endsPhrase_cons {c : Char} {text : List Char} (h : c = ')' ∨ c = ',') :
    EndsPhrase (c :: text) := by
  intro d hd
  obtain rfl : c = d := by simpa using hd
  exact h

theorem isWordChar_of_code {c : Char} (hlow : 48 ≤ c.toNat) (hhigh : c.toNat ≤ 122) :
    isWordChar c = true := by
  have hblank : Text.isBlank c = false := by
    simp only [Text.isBlank, Text.blankRanges, List.any_cons, List.any_nil, Bool.or_false,
      Bool.or_eq_false_iff, Bool.and_eq_false_iff, decide_eq_false_iff_not]
    omega
  have hpunctuation : isPunctuation c = false := by
    simp only [isPunctuation, Bool.or_eq_false_iff, decide_eq_false_iff_not]
    refine ⟨⟨⟨⟨?_, ?_⟩, ?_⟩, ?_⟩, ?_⟩ <;> rintro rfl <;> exact absurd hlow (by decide)
  simp [isWordChar, hblank, hpunctuation]

theorem code_of_isAlphanum {c : Char} (h : c.isAlphanum = true) :
    48 ≤ c.toNat ∧ c.toNat ≤ 122 := by
  simp only [Char.isAlphanum, Char.isAlpha, Char.isUpper, Char.isLower, Char.isDigit,
    Bool.or_eq_true, Bool.and_eq_true, decide_eq_true_eq, UInt32.le_iff_toNat_le, ge_iff_le] at h
  have hcode : c.toNat = c.val.toNat := rfl
  have h0 : '0'.val.toNat = 48 := rfl
  have h9 : '9'.val.toNat = 57 := rfl
  have hA : 'A'.val.toNat = 65 := rfl
  have hZ : 'Z'.val.toNat = 90 := rfl
  have ha : 'a'.val.toNat = 97 := rfl
  have hz : 'z'.val.toNat = 122 := rfl
  omega

theorem isWordChar_of_isAlphanum {c : Char} (h : c.isAlphanum = true) : isWordChar c = true :=
  isWordChar_of_code (code_of_isAlphanum h).1 (code_of_isAlphanum h).2

theorem isWordChar_of_isDigit {c : Char} (h : c.isDigit = true) : isWordChar c = true :=
  isWordChar_of_isAlphanum (by simp [Char.isAlphanum, h])

/-! ### Unambiguous pieces -/

/-- A run of characters with a property is told from what comes next. -/
theorem append_inj_of_stop {p : Char → Bool} {u v x y : List Char}
    (hu : ∀ c ∈ u, p c = true) (hv : ∀ c ∈ v, p c = true)
    (hx : ∀ c, x.head? = some c → p c = false) (hy : ∀ c, y.head? = some c → p c = false)
    (heq : u ++ x = v ++ y) : u = v ∧ x = y := by
  induction u generalizing v with
  | nil =>
      cases v with
      | nil => exact ⟨rfl, heq⟩
      | cons c v =>
          have hstop := hx c (by rw [List.nil_append] at heq; rw [heq]; rfl)
          rw [hv c (by simp)] at hstop
          exact absurd hstop (by decide)
  | cons c u ih =>
      cases v with
      | nil =>
          have hstop := hy c (by rw [List.nil_append] at heq; rw [← heq]; rfl)
          rw [hu c (by simp)] at hstop
          exact absurd hstop (by decide)
      | cons d v =>
          simp only [List.cons_append, List.cons.injEq] at heq
          obtain ⟨rfl, hrest⟩ := heq
          obtain ⟨rfl, hxy⟩ := ih (fun e he => hu e (by simp [he]))
            (fun e he => hv e (by simp [he])) hrest
          exact ⟨rfl, hxy⟩

theorem newline_free {body : List Char} (h : '\n' ∉ body) :
    ∀ c ∈ body, decide (c ≠ '\n') = true := by
  intro c hc
  have hne : c ≠ '\n' := fun heq => h (heq ▸ hc)
  simpa using hne

theorem endsLine_append {x y : List Char} (h : EndsLine (x.head?.or y.head?)) :
    ∀ c, (x ++ y).head? = some c → decide (c ≠ '\n') = false := by
  intro c hc
  rw [List.head?_append] at hc
  rw [hc] at h
  simpa [EndsLine] using h

theorem Gap.append_inj {g h : Gap} {x y : List Char}
    (hg : g.Before x.head?) (hh : h.Before y.head?) (hx : EndsGap x) (hy : EndsGap y)
    (heq : g.chars ++ x = h.chars ++ y) : g = h ∧ x = y := by
  induction g generalizing h with
  | nil =>
      cases h with
      | nil => exact ⟨rfl, heq⟩
      | cons filler h =>
          rw [Gap.chars, List.nil_append] at heq
          subst heq
          cases filler with
          | blank c => exact absurd hh.1 (by simp [Filler.Before, (hx c rfl).1])
          | comment body => exact absurd rfl (hx '#' rfl).2
  | cons filler g ih =>
      cases h with
      | nil =>
          rw [Gap.chars, Gap.chars, List.nil_append] at heq
          subst heq
          cases filler with
          | blank c => exact absurd hg.1 (by simp [Filler.Before, (hy c rfl).1])
          | comment body => exact absurd rfl (hy '#' rfl).2
      | cons other h =>
          cases filler with
          | blank c =>
              cases other with
              | blank d =>
                  simp only [Gap.chars, Filler.chars, List.cons_append, List.nil_append,
                    List.cons.injEq] at heq
                  obtain ⟨rfl, hrest⟩ := heq
                  obtain ⟨rfl, hxy⟩ := ih hg.2 hh.2 hrest
                  exact ⟨rfl, hxy⟩
              | comment body =>
                  simp only [Gap.chars, Filler.chars, List.cons_append, List.nil_append,
                    List.cons.injEq] at heq
                  obtain ⟨rfl, -⟩ := heq
                  exact absurd hg.1 (show ¬Text.isBlank '#' = true by decide)
          | comment body =>
              cases other with
              | blank d =>
                  simp only [Gap.chars, Filler.chars, List.cons_append, List.nil_append,
                    List.cons.injEq] at heq
                  obtain ⟨rfl, -⟩ := heq
                  exact absurd hh.1 (show ¬Text.isBlank '#' = true by decide)
              | comment other =>
                  simp only [Gap.chars, Filler.chars, List.cons_append, List.append_assoc,
                    List.cons.injEq, true_and] at heq
                  obtain ⟨rfl, hrest⟩ := append_inj_of_stop (p := (· ≠ '\n'))
                    (newline_free hg.1.1) (newline_free hh.1.1) (endsLine_append hg.1.2)
                    (endsLine_append hh.1.2) heq
                  obtain ⟨rfl, hxy⟩ := ih hg.2 hh.2 hrest
                  exact ⟨rfl, hxy⟩

theorem Gap.endsWord {g : Gap} {x : List Char} (hg : g.Before x.head?) (hx : EndsWord x) :
    EndsWord (g.chars ++ x) := by
  cases g with
  | nil => exact hx
  | cons filler g =>
      intro c hc
      cases filler with
      | blank d =>
          obtain rfl : d = c := by simpa [Gap.chars, Filler.chars] using hc
          have hblank : Text.isBlank d = true := hg.1
          simp [isWordChar, hblank]
      | comment body =>
          obtain rfl : '#' = c := by simpa [Gap.chars, Filler.chars] using hc
          decide

namespace Atom

/-- An atom is not empty, and it begins as atoms do. -/
theorem chars_eq_cons {a : Atom} (h : a.Spelled) :
    ∃ c rest, a.chars = c :: rest ∧ StartsAtom c := by
  cases a with
  | text contents => exact ⟨'"', contents ++ ['"'], rfl, .inr rfl⟩
  | number digits =>
      obtain ⟨hne, hdigits⟩ := h
      obtain ⟨c, rest, rfl⟩ := List.exists_cons_of_ne_nil hne
      exact ⟨c, rest, rfl, .inl (isWordChar_of_isDigit (hdigits c (by simp)))⟩
  | word name =>
      obtain ⟨hne, hname, -⟩ := h
      obtain ⟨c, rest, rfl⟩ := List.exists_cons_of_ne_nil hne
      exact ⟨c, rest, rfl, .inl (hname c (by simp))⟩

/-- No word consists of digits alone. -/
theorem not_spelled_word_of_digits {digits : List Char}
    (hdigits : ∀ c ∈ digits, c.isDigit = true) : ¬(word digits).Spelled := by
  rintro ⟨hne, -, hlead | ⟨c, hc, -⟩⟩
  · rw [List.takeWhile_eq_self_iff.2 hdigits] at hlead
    exact hne hlead
  · rw [List.dropWhile_eq_nil_iff.2 hdigits] at hc
    simp at hc

/-- A number or a word consists of word characters. -/
theorem isWordChar_of_mem {a : Atom} (h : a.Spelled) (hquote : ∀ contents, a ≠ text contents) :
    ∀ c ∈ a.chars, isWordChar c = true := by
  intro c hc
  cases a with
  | text contents => exact absurd rfl (hquote contents)
  | number digits => exact isWordChar_of_isDigit (h.2 c hc)
  | word name => exact h.2.1 c hc

theorem quote_free {contents : List Char} (h : '"' ∉ contents) :
    ∀ c ∈ contents, decide (c ≠ '"') = true := by
  intro c hc
  have hne : c ≠ '"' := fun heq => h (heq ▸ hc)
  simpa using hne

/-- A text in quotation marks is told from what comes next. -/
theorem text_append_inj {u v x y : List Char} (hu : '"' ∉ u) (hv : '"' ∉ v)
    (heq : (text u).chars ++ x = (text v).chars ++ y) : u = v ∧ x = y := by
  simp only [chars, List.cons_append, List.append_assoc, List.cons.injEq, true_and,
    List.nil_append] at heq
  obtain ⟨huv, hxy⟩ := append_inj_of_stop (quote_free hu) (quote_free hv)
    (by intro c hc; obtain rfl : '"' = c := by simpa using hc
        decide)
    (by intro c hc; obtain rfl : '"' = c := by simpa using hc
        decide) heq
  exact ⟨huv, by simpa using hxy⟩

theorem append_inj {a b : Atom} {x y : List Char} (ha : a.Spelled) (hb : b.Spelled)
    (hx : EndsWord x) (hy : EndsWord y) (heq : a.chars ++ x = b.chars ++ y) :
    a = b ∧ x = y := by
  -- only a text begins with a quotation mark
  have hquote : ∀ {contents : List Char} {d : Atom} {z w : List Char}, d.Spelled →
      (∀ other, d ≠ text other) → (text contents).chars ++ z ≠ d.chars ++ w := by
    intro contents d z w hd hnot hcontra
    obtain ⟨c, rest, hcons, -⟩ := chars_eq_cons hd
    have hword := isWordChar_of_mem hd hnot c (by simp [hcons])
    rw [hcons] at hcontra
    simp only [chars, List.cons_append, List.cons.injEq] at hcontra
    rw [← hcontra.1] at hword
    exact absurd hword (by decide)
  by_cases hta : ∃ contents, a = text contents
  · obtain ⟨contents, rfl⟩ := hta
    by_cases htb : ∃ other, b = text other
    · obtain ⟨other, rfl⟩ := htb
      obtain ⟨rfl, hxy⟩ := text_append_inj ha hb heq
      exact ⟨rfl, hxy⟩
    · exact absurd heq (hquote hb fun other h => htb ⟨other, h⟩)
  · by_cases htb : ∃ other, b = text other
    · obtain ⟨other, rfl⟩ := htb
      exact absurd heq.symm (hquote ha fun other h => hta ⟨other, h⟩)
    · obtain ⟨hchars, hxy⟩ := append_inj_of_stop
        (isWordChar_of_mem ha fun other h => hta ⟨other, h⟩)
        (isWordChar_of_mem hb fun other h => htb ⟨other, h⟩) hx hy heq
      refine ⟨?_, hxy⟩
      cases a with
      | text contents => exact absurd ⟨contents, rfl⟩ hta
      | number digits =>
          cases b with
          | text other => exact absurd ⟨other, rfl⟩ htb
          | number other => exact congrArg number hchars
          | word name =>
              obtain rfl : digits = name := hchars
              exact absurd hb (not_spelled_word_of_digits ha.2)
      | word name =>
          cases b with
          | text other => exact absurd ⟨other, rfl⟩ htb
          | number digits =>
              obtain rfl : name = digits := hchars
              exact absurd ha (not_spelled_word_of_digits hb.2)
          | word other => exact congrArg word hchars

end Atom

/-! ### Unambiguity -/

/-- An expression is not empty, and it begins as atoms do. -/
theorem Phrase.chars_eq_cons {p : Phrase} (h : p.Proper) :
    ∃ c rest, p.chars = c :: rest ∧ StartsAtom c := by
  cases p with
  | mk atom calls =>
      obtain ⟨c, rest, hcons, hstart⟩ := Atom.chars_eq_cons h.1.1
      exact ⟨c, rest ++ calls.chars, by simp [Phrase.chars, hcons], hstart⟩

theorem Phrase.head?_append {p : Phrase} (h : p.Proper) (x : List Char) :
    (p.chars ++ x).head? = p.chars.head? := by
  obtain ⟨c, rest, hcons, -⟩ := p.chars_eq_cons h
  simp [hcons]

theorem Phrase.endsGap {p : Phrase} (h : p.Proper) (x : List Char) : EndsGap (p.chars ++ x) := by
  obtain ⟨c, rest, hcons, hstart⟩ := p.chars_eq_cons h
  rw [hcons, List.cons_append]
  exact endsGap_cons hstart.not_blank.1 hstart.not_blank.2

/-- An argument list does not make an atom before it longer. -/
theorem Calls.endsWord {cs : Calls} {x : List Char} (hcs : cs.Proper) (hx : EndsWord x) :
    EndsWord (cs.chars ++ x) := by
  cases cs with
  | none => exact hx
  | call gap operands more =>
      rw [Calls.chars, List.append_assoc]
      refine Gap.endsWord hcs.1 ?_
      intro c hc
      obtain rfl : '(' = c := by simpa using hc
      decide

/-- Arguments do not begin as a gap that fills the brackets does. -/
theorem Slots.ne_gap {ss : Slots} {g : Gap} {x y : List Char} (hss : ss.Proper)
    (hg : g.Before (some ')')) : ss.chars ++ ')' :: x ≠ g.chars ++ ')' :: y := by
  -- the first argument would have to begin with the closing bracket
  have hfirst : ∀ {before : Gap} {phrase : Phrase} {rest : List Char},
      before.Before phrase.chars.head? → phrase.Proper →
      before.chars ++ (phrase.chars ++ rest) ≠ g.chars ++ ')' :: y := by
    intro before phrase rest hbefore hphrase heq
    obtain ⟨-, hclosing⟩ := Gap.append_inj (by rwa [Phrase.head?_append hphrase]) hg
      (Phrase.endsGap hphrase rest) (endsGap_cons (by decide) (by decide)) heq
    obtain ⟨c, more, hcons, hstart⟩ := phrase.chars_eq_cons hphrase
    rw [hcons, List.cons_append, List.cons.injEq] at hclosing
    exact hstart.not_mark.2.1 hclosing.1
  intro heq
  cases ss with
  | last before phrase after =>
      simp only [Slots.chars, List.append_assoc] at heq
      exact hfirst hss.1 hss.2.1 heq
  | more before phrase after rest =>
      simp only [Slots.chars, List.append_assoc] at heq
      exact hfirst hss.1 hss.2.1 heq

/-- An argument and the gaps around it are told from what comes next if the argument
    and the gap behind it are. -/
theorem slot_append_inj {b b' a a' : Gap} {p p' : Phrase} {x y : List Char}
    (hb : b.Before p.chars.head?) (hb' : b'.Before p'.chars.head?) (hp : p.Proper)
    (hp' : p'.Proper)
    (hinj : p.chars ++ (a.chars ++ x) = p'.chars ++ (a'.chars ++ y) → p = p' ∧ a = a' ∧ x = y)
    (heq : b.chars ++ (p.chars ++ (a.chars ++ x)) = b'.chars ++ (p'.chars ++ (a'.chars ++ y))) :
    b = b' ∧ p = p' ∧ a = a' ∧ x = y := by
  obtain ⟨rfl, hrest⟩ := Gap.append_inj (by rwa [Phrase.head?_append hp])
    (by rwa [Phrase.head?_append hp']) (Phrase.endsGap hp _) (Phrase.endsGap hp' _) heq
  exact ⟨rfl, hinj hrest⟩

mutual

/-- An expression and the gap behind it are told from what comes next. -/
theorem Phrase.append_inj (p q : Phrase) {g h : Gap} {x y : List Char}
    (hp : p.Proper) (hq : q.Proper) (hg : g.Before x.head?) (hh : h.Before y.head?)
    (hx : EndsPhrase x) (hy : EndsPhrase y)
    (heq : p.chars ++ (g.chars ++ x) = q.chars ++ (h.chars ++ y)) :
    p = q ∧ g = h ∧ x = y := by
  cases p with
  | mk a cs =>
      cases q with
      | mk b ds =>
          simp only [Phrase.chars, List.append_assoc] at heq
          obtain ⟨rfl, hrest⟩ := Atom.append_inj hp.1.1 hq.1.1 (Calls.endsWord hp.2 (Gap.endsWord hg hx.endsWord))
            (Calls.endsWord hq.2 (Gap.endsWord hh hy.endsWord)) heq
          obtain ⟨rfl, hghxy⟩ := Calls.append_inj cs ds hp.2 hq.2 hg hh hx hy hrest
          exact ⟨rfl, hghxy⟩
termination_by structural p

/-- Argument lists and the gap behind them are told from what comes next. -/
theorem Calls.append_inj (cs ds : Calls) {g h : Gap} {x y : List Char}
    (hcs : cs.Proper) (hds : ds.Proper) (hg : g.Before x.head?) (hh : h.Before y.head?)
    (hx : EndsPhrase x) (hy : EndsPhrase y)
    (heq : cs.chars ++ (g.chars ++ x) = ds.chars ++ (h.chars ++ y)) :
    cs = ds ∧ g = h ∧ x = y := by
  have hopening : ∀ rest, EndsGap ('(' :: rest) := fun rest =>
    endsGap_cons (by decide) (by decide)
  cases cs with
  | none =>
      cases ds with
      | none =>
          simp only [Calls.chars, List.nil_append] at heq
          exact ⟨rfl, Gap.append_inj hg hh hx.endsGap hy.endsGap heq⟩
      | call gap operands more =>
          simp only [Calls.chars, List.nil_append, List.append_assoc, List.cons_append] at heq
          obtain ⟨-, rfl⟩ := Gap.append_inj hg hds.1 hx.endsGap (hopening _) heq
          exact absurd (hx '(' rfl) (by decide)
  | call gap operands more =>
      cases ds with
      | none =>
          simp only [Calls.chars, List.nil_append, List.append_assoc, List.cons_append] at heq
          obtain ⟨-, rfl⟩ := Gap.append_inj hcs.1 hh (hopening _) hy.endsGap heq
          exact absurd (hy '(' rfl) (by decide)
      | call gap' operands' more' =>
          simp only [Calls.chars, List.append_assoc, List.cons_append] at heq
          obtain ⟨rfl, hinside⟩ := Gap.append_inj hcs.1 hds.1 (hopening _) (hopening _) heq
          rw [List.cons.injEq] at hinside
          obtain ⟨rfl, hmore⟩ := Operands.append_inj operands operands' hcs.2.1 hds.2.1 hinside.2
          obtain ⟨rfl, hghxy⟩ := Calls.append_inj more more' hcs.2.2 hds.2.2 hg hh hx hy hmore
          exact ⟨rfl, hghxy⟩
termination_by structural cs

theorem Operands.append_inj (o o' : Operands) {x y : List Char} (ho : o.Proper) (ho' : o'.Proper)
    (heq : o.chars ++ ')' :: x = o'.chars ++ ')' :: y) : o = o' ∧ x = y := by
  have hclosing : ∀ rest, EndsGap (')' :: rest) := fun rest =>
    endsGap_cons (by decide) (by decide)
  cases o with
  | none g =>
      cases o' with
      | none g' =>
          obtain ⟨rfl, hxy⟩ := Gap.append_inj (x := ')' :: x) (y := ')' :: y) ho ho'
            (hclosing _) (hclosing _) heq
          exact ⟨rfl, (List.cons.inj hxy).2⟩
      | some ss => exact absurd heq.symm (Slots.ne_gap ho' ho)
  | some ss =>
      cases o' with
      | none g' => exact absurd heq (Slots.ne_gap ho ho')
      | some ss' =>
          obtain ⟨rfl, hxy⟩ := Slots.append_inj ss ss' ho ho' heq
          exact ⟨rfl, hxy⟩
termination_by structural o

theorem Slots.append_inj (ss ss' : Slots) {x y : List Char} (hss : ss.Proper)
    (hss' : ss'.Proper) (heq : ss.chars ++ ')' :: x = ss'.chars ++ ')' :: y) :
    ss = ss' ∧ x = y := by
  have hclosing : ∀ rest, EndsPhrase (')' :: rest) := fun rest => endsPhrase_cons (.inl rfl)
  have hcomma : ∀ rest, EndsPhrase (',' :: rest) := fun rest => endsPhrase_cons (.inr rfl)
  cases ss with
  | last before phrase after =>
      cases ss' with
      | last before' phrase' after' =>
          simp only [Slots.chars, List.append_assoc] at heq
          obtain ⟨rfl, rfl, rfl, hxy⟩ := slot_append_inj hss.1 hss'.1 hss.2.1 hss'.2.1
            (Phrase.append_inj phrase phrase' hss.2.1 hss'.2.1 hss.2.2 hss'.2.2
              (hclosing _) (hclosing _)) heq
          exact ⟨rfl, (List.cons.inj hxy).2⟩
      | more before' phrase' after' rest' =>
          simp only [Slots.chars, List.append_assoc, List.cons_append] at heq
          obtain ⟨-, -, -, hxy⟩ := slot_append_inj hss.1 hss'.1 hss.2.1 hss'.2.1
            (Phrase.append_inj phrase phrase' hss.2.1 hss'.2.1 hss.2.2 hss'.2.2.1
              (hclosing _) (hcomma _)) heq
          exact absurd (List.cons.inj hxy).1 (by decide)
  | more before phrase after rest =>
      cases ss' with
      | last before' phrase' after' =>
          simp only [Slots.chars, List.append_assoc, List.cons_append] at heq
          obtain ⟨-, -, -, hxy⟩ := slot_append_inj hss.1 hss'.1 hss.2.1 hss'.2.1
            (Phrase.append_inj phrase phrase' hss.2.1 hss'.2.1 hss.2.2.1 hss'.2.2
              (hcomma _) (hclosing _)) heq
          exact absurd (List.cons.inj hxy).1 (by decide)
      | more before' phrase' after' rest' =>
          simp only [Slots.chars, List.append_assoc, List.cons_append] at heq
          obtain ⟨rfl, rfl, rfl, hrest⟩ := slot_append_inj hss.1 hss'.1 hss.2.1 hss'.2.1
            (Phrase.append_inj phrase phrase' hss.2.1 hss'.2.1 hss.2.2.1 hss'.2.2.1
              (hcomma _) (hcomma _)) heq
          obtain ⟨rfl, hxy⟩ := Slots.append_inj rest rest' hss.2.2.2 hss'.2.2.2
            (List.cons.inj hrest).2
          exact ⟨rfl, hxy⟩
termination_by structural ss

end

/-- One text is written by the grammar in one way at most. -/
theorem Derivation.eq_of_chars_eq {d d' : Derivation} (hd : d.Proper) (hd' : d'.Proper)
    (heq : d.chars = d'.chars) : d = d' := by
  have hslot : d.before.chars ++ (d.phrase.chars ++ (Gap.chars d.after ++ [])) =
      d'.before.chars ++ (d'.phrase.chars ++ (Gap.chars d'.after ++ [])) := by
    simpa only [List.append_nil, Derivation.chars] using heq
  obtain ⟨hbefore, hphrase, hafter, -⟩ := slot_append_inj hd.1 hd'.1 hd.2.1 hd'.2.1
    (Phrase.append_inj d.phrase d'.phrase hd.2.1 hd'.2.1 hd.2.2 hd'.2.2
      endsPhrase_nil endsPhrase_nil) hslot
  obtain ⟨before, phrase, after⟩ := d
  obtain ⟨before', phrase', after'⟩ := d'
  simp only at hbefore hphrase hafter
  rw [hbefore, hphrase, hafter]

end CallLang.Grammar
