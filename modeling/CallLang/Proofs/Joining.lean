/-
  CallLang/Proofs/Joining.lean
  ============================
  **Several programs in one text.**

  Programs can be made the operands of one sequence.  A line feed goes behind each of
  them, lest a comment at its end swallow the comma.  The text is a program again,
  and its operands are the trees of the programs at other places.
-/
import CallLang.Proofs.Plain
import CallLang.Proofs.Truncation

namespace CallLang

/-- The text of one program that does several programs, one after another. -/
def sequenceText (sources : List String) : String :=
  "do(" ++ "\n,".intercalate sources ++ "\n)"

namespace Grammar

/-! ### Places -/

theorem Atom.same {c : Comparison} (hspans : ∀ span span', c.spans span span') (w : Correspondence)
    (a : Atom) (place place' : Nat) : Expr.Same c w (a.expr place) (a.expr place') := by
  cases a with
  | text contents => exact .literal (.string _) (hspans _ _)
  | number digits => exact .literal (.number _) (hspans _ _)
  | word name => exact .name _ (hspans _ _)

section

variable {c : Comparison} {w : Correspondence}

mutual

/-- The tree of an expression is the same at all places. -/
theorem Phrase.same (hspans : ∀ span span', c.spans span span') (p : Phrase)
    (place place' : Nat) : Expr.Same c w (p.expr place) (p.expr place') := by
  cases p with
  | mk atom calls =>
      exact calls.same_applied hspans _ _ (atom.same hspans w place place')

theorem Calls.same_applied (hspans : ∀ span span', c.spans span span') (cs : Calls)
    (place place' : Nat) {operator operator' : Expr} (h : Expr.Same c w operator operator') :
    Expr.Same c w (cs.applied place operator) (cs.applied place' operator') := by
  cases cs with
  | none => exact h
  | call gap operands more =>
      exact more.same_applied hspans _ _ (.call h (operands.same hspans _ _) (hspans _ _))

theorem Operands.same (hspans : ∀ span span', c.spans span span') (o : Operands)
    (place place' : Nat) : Expr.AllSame c w (o.exprs place) (o.exprs place') := by
  cases o with
  | none gap => exact .nil
  | some slots => exact slots.same hspans place place'

theorem Slots.same (hspans : ∀ span span', c.spans span span') (ss : Slots)
    (place place' : Nat) : Expr.AllSame c w (ss.exprs place) (ss.exprs place') := by
  cases ss with
  | last before phrase after => exact .cons (phrase.same hspans _ _) .nil
  | more before phrase after rest =>
      exact .cons (phrase.same hspans _ _) (rest.same hspans _ _)

end

end

/-! ### Line feeds -/

theorem Gap.chars_append (g h : Gap) : Gap.chars (g ++ h) = g.chars ++ h.chars := by
  induction g with
  | nil => rfl
  | cons filler g ih => simp [Gap.chars, ih]

/-- Behind a line feed a gap may be followed by anything. -/
theorem Gap.Before.newline {g : Gap} (h : g.Before none) (next : Option Char) :
    Gap.Before (g ++ [.blank '\n']) next := by
  induction g with
  | nil =>
      have hblank : Text.isBlank '\n' = true := by decide
      exact ⟨hblank, trivial⟩
  | cons filler g ih =>
      refine ⟨h.1.standsFor ?_, ih h.2⟩
      change StandsFor ((Gap.chars (g ++ [.blank '\n'])).head?.or next) ((Gap.chars g).head?.or none)
      rw [Gap.chars_append]
      cases Gap.chars g with
      | nil => exact .inr (.inr rfl)
      | cons c rest => exact .inl rfl

/-! ### Sequences -/

namespace Derivation

/-- Programs as operands, each with a line feed behind it. -/
def slots (first : Derivation) : List Derivation → Slots
  | [] => .last first.before first.phrase (first.after ++ [.blank '\n'])
  | second :: rest =>
    .more first.before first.phrase (first.after ++ [.blank '\n']) (second.slots rest)

/-- Programs as the operands of a sequence. -/
def sequence (first : Derivation) (rest : List Derivation) : Derivation where
  before := []
  phrase := .mk (.word ['d', 'o']) (.call [] (.some (first.slots rest)) .none)
  after := []

theorem proper_slots {first : Derivation} (hfirst : first.Proper) {rest : List Derivation}
    (hrest : ∀ d ∈ rest, d.Proper) : (first.slots rest).Proper := by
  induction rest generalizing first with
  | nil => exact ⟨hfirst.1, hfirst.2.1, hfirst.2.2.newline _⟩
  | cons second rest ih =>
      refine ⟨hfirst.1, hfirst.2.1, hfirst.2.2.newline _, ?_⟩
      exact ih (hrest second List.mem_cons_self) fun d hmem => hrest d (List.mem_cons_of_mem _ hmem)

theorem chars_slots {first : Derivation} {rest : List Derivation} {source : String}
    {sources : List String} (hfirst : first.chars = source.toList)
    (hrest : List.Forall₂ (fun d text => d.chars = String.toList text) rest sources) :
    (first.slots rest).chars = ("\n,".intercalate (source :: sources)).toList ++ ['\n'] := by
  have hbody : first.before.chars ++ (first.phrase.chars ++
      Gap.chars (first.after ++ [.blank '\n'])) = source.toList ++ ['\n'] := by
    rw [Gap.chars_append, ← hfirst, chars]
    simp [Gap.chars, Filler.chars]
  induction hrest generalizing first source with
  | nil =>
      rw [String.intercalate_singleton]
      exact hbody
  | @cons second text rest sources hsecond hrest ih =>
      have hnext : (second.slots rest).chars =
          ("\n,".intercalate (text :: sources)).toList ++ ['\n'] := by
        refine ih hsecond ?_
        rw [Gap.chars_append, ← hsecond, chars]
        simp [Gap.chars, Filler.chars]
      have hsplit : (first.slots (second :: rest)).chars =
          first.before.chars ++ (first.phrase.chars ++ Gap.chars (first.after ++ [.blank '\n'])) ++
            ',' :: (second.slots rest).chars := by
        simp [slots, Slots.chars]
      rw [hsplit, hbody, hnext, String.intercalate_cons_cons]
      simp

/-- A sequence of programs is a program. -/
theorem derives_sequence {first : Derivation} {rest : List Derivation} {source : String}
    {sources : List String} (hfirst : first.Derives source)
    (hrest : List.Forall₂ Derives rest sources) :
    (first.sequence rest).Derives (sequenceText (source :: sources)) := by
  have hproper : ∀ d ∈ rest, d.Proper := by
    intro d hmem
    clear hfirst
    induction hrest with
    | nil => cases hmem
    | cons hd hrest ih =>
        rcases List.mem_cons.1 hmem with rfl | hmem
        · exact hd.1
        · exact ih hmem
  have hword : (Atom.word ['d', 'o']).Spelled := by
    refine ⟨by decide, ?_, .inl (by decide)⟩
    intro c hc
    rcases List.mem_pair.1 hc with rfl | rfl <;> exact isWordChar_of_isAlphanum (by decide)
  have hslots : (Operands.some (first.slots rest)).Proper := proper_slots hfirst.1 hproper
  have hphrase : (Phrase.mk (.word ['d', 'o']) (.call [] (.some (first.slots rest)) .none)).Proper :=
    ⟨⟨hword, trivial⟩, trivial, hslots, trivial⟩
  constructor
  · exact ⟨trivial, hphrase, trivial⟩
  · have hchars := chars_slots hfirst.2 (hrest.imp fun _ _ h => h.2)
    simp only [sequence, chars, Gap.chars, Phrase.chars, Atom.chars, Calls.chars, Operands.chars,
      hchars, sequenceText, String.toList_append]
    simp

theorem same_slots {c : Comparison} (hspans : ∀ span span', c.spans span span')
    (w : Correspondence) (first : Derivation) (rest : List Derivation) (place : Nat) :
    Expr.AllSame c w ((first :: rest).map expr) ((first.slots rest).exprs place) := by
  induction rest generalizing first place with
  | nil => exact .cons (first.phrase.same hspans _ _) .nil
  | cons second rest ih => exact .cons (first.phrase.same hspans _ _) (ih second _)

/-- The tree of a sequence: a call of the form, whose operands are the trees of the programs. -/
theorem expr_sequence (first : Derivation) (rest : List Derivation) :
    ∃ operator operands span, (first.sequence rest).expr = .call operator operands span ∧
      operator.form? = some .sequence ∧
      ∀ (c : Comparison) (w : Correspondence), (∀ span span', c.spans span span') →
        Expr.AllSame c w ((first :: rest).map expr) operands := by
  have hform : ((Atom.word ['d', 'o']).expr 0).form? = some .sequence := by decide
  exact ⟨_, _, _, rfl, hform, fun c w hspans => same_slots hspans w first rest _⟩

end Derivation

end Grammar

end CallLang
