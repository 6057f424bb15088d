/-
  CallLang/Proofs/Plain.lean
  ==========================
  **What texts are read as.**

  A tree that was read from a text has no holes, and its literals are integers and
  strings; so it has no business with the scopes and closures of any store, and
  it is the same as itself whatever they stand for.
-/
import CallLang.Proofs.Correspondence
import CallLang.Proofs.Parsing

namespace CallLang

/-- Whether a tree could have been read from a text. -/
inductive Expr.Plain : Expr → Prop where
  | int (n : Int) (span : Span) : Expr.Plain (.literal (.int n) span)
  | string (text : String) (span : Span) : Expr.Plain (.literal (.string text) span)
  | name (text : String) (span : Span) : Expr.Plain (.name text span)
  | call {operator : Expr} {arguments : List Expr} (span : Span) (hoperator : operator.Plain)
      (harguments : ∀ argument ∈ arguments, argument.Plain) :
      Expr.Plain (.call operator arguments span)

namespace Grammar

theorem Atom.plain (place : Nat) (a : Atom) : (a.expr place).Plain := by
  cases a with
  | text contents => exact .string _ _
  | number digits => exact .int _ _
  | word name => exact .name _ _

mutual

theorem Phrase.plain (p : Phrase) (place : Nat) : (p.expr place).Plain := by
  cases p with
  | mk atom calls => exact calls.plain_applied _ (atom.plain place)

theorem Calls.plain_applied (cs : Calls) (place : Nat) {operator : Expr} (h : operator.Plain) :
    (cs.applied place operator).Plain := by
  cases cs with
  | none => exact h
  | call gap operands more =>
      exact more.plain_applied _ (.call _ h (operands.plain _))

theorem Operands.plain (o : Operands) (place : Nat) : ∀ e ∈ o.exprs place, e.Plain := by
  cases o with
  | none gap => simp [Operands.exprs]
  | some slots => exact slots.plain place

theorem Slots.plain (ss : Slots) (place : Nat) : ∀ e ∈ ss.exprs place, e.Plain := by
  cases ss with
  | last before phrase after =>
      intro e he
      obtain rfl : e = _ := List.mem_singleton.1 he
      exact phrase.plain _
  | more before phrase after rest =>
      intro e he
      rcases List.mem_cons.1 he with rfl | he
      · exact phrase.plain _
      · exact rest.plain _ e he

end

end Grammar

theorem Expr.plain_of_parse {limit : Nat} {source : String} {e : Expr}
    (h : Expr.parse limit source = .ok e) : e.Plain := by
  obtain ⟨d, -, rfl⟩ := Reader.derives_of_parse h
  exact d.phrase.plain _

/-- A tree that was read is the same as itself. -/
theorem Expr.Plain.same {c : Comparison} (hspans : ∀ span, c.spans span span) (w : Correspondence)
    {e : Expr} (h : e.Plain) : Expr.Same c w e e := by
  induction h with
  | int n span => exact .literal (.number _) (hspans span)
  | string text span => exact .literal (.string text) (hspans span)
  | name text span => exact .name text (hspans span)
  | @call operator arguments span hoperator harguments ihoperator iharguments =>
      refine .call ihoperator ?_ (hspans span)
      clear harguments
      induction arguments with
      | nil => exact .nil
      | cons argument rest ih =>
          refine .cons (iharguments argument (by simp)) (ih fun other hmem => ?_)
          exact iharguments other (by simp [hmem])

end CallLang
