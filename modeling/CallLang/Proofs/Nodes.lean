/-
  CallLang/Proofs/Nodes.lean
  ==========================
  **The nodes of a program.**

  Every node of a tree that was read from a text is what a phrase of the text is read
  as.  An operator that is called several times is a phrase as well: the phrase of the
  whole chain without its last argument lists.  Hence every node covers a piece of the
  text, which is not empty, and a name covers the very characters that it consists of.
-/
import CallLang.Proofs.Plain
import CallLang.Text.Address
import Mathlib.Logic.Relation

namespace CallLang

namespace Expr

/-- Whether a node belongs to a tree. -/
def HasNode : Expr → Expr → Prop :=
  Relation.ReflTransGen fun tree child => child ∈ tree.children

/-- Whether something holds of all nodes of a tree. -/
def EachNode (p : Expr → Prop) (tree : Expr) : Prop :=
  ∀ node, tree.HasNode node → p node

variable {p : Expr → Prop}

theorem hasNode_refl (tree : Expr) : tree.HasNode tree :=
  Relation.ReflTransGen.refl

theorem HasNode.child {tree node child : Expr} (h : tree.HasNode node)
    (hchild : child ∈ node.children) : tree.HasNode child :=
  Relation.ReflTransGen.tail h hchild

theorem eachNode_of_children {tree : Expr} (h : p tree)
    (hchildren : ∀ child ∈ tree.children, child.EachNode p) : tree.EachNode p := by
  intro node hnode
  rcases Relation.ReflTransGen.cases_head hnode with rfl | ⟨child, hchild, hbelow⟩
  · exact h
  · exact hchildren child hchild node hbelow

theorem eachNode_call {operator : Expr} {arguments : List Expr} {span : Span}
    (h : p (.call operator arguments span)) (hoperator : operator.EachNode p)
    (harguments : ∀ argument ∈ arguments, argument.EachNode p) :
    (call operator arguments span).EachNode p := by
  apply eachNode_of_children h
  intro child hchild
  rcases List.mem_cons.1 hchild with rfl | hmem
  · exact hoperator
  · exact harguments child hmem

/-- All nodes of a tree that was read could have been read. -/
theorem Plain.node {tree node : Expr} (h : tree.Plain) (hnode : tree.HasNode node) :
    node.Plain := by
  induction hnode with
  | refl => exact h
  | tail _ hchild ih =>
      cases ih with
      | call _ hoperator harguments =>
          rcases List.mem_cons.1 hchild with rfl | hmem
          · exact hoperator
          · exact harguments _ hmem
      | _ => cases hchild

/-! ### Places in the text -/

/-- Whether an expression has its place in a text.  A name stands there as it is. -/
structure StandsIn (text : List Char) (e : Expr) : Prop where
  start_lt : e.span.start < e.span.stop
  stop_le : e.span.stop ≤ text.length
  spelled : ∀ name span, e = .name name span →
    Text.slice text span.start span.stop = name.toList

end Expr

theorem Text.slice_append (u piece v : List Char) :
    Text.slice (u ++ (piece ++ v)) u.length (u.length + piece.length : Nat) = piece := by
  have hposition : ∀ n : Nat, Text.position (u ++ (piece ++ v)).length n =
      min n (u ++ (piece ++ v)).length := by
    intro n
    rw [Text.position, if_neg (Int.not_lt.2 (Int.natCast_nonneg n)), Int.toNat_natCast]
  rw [Text.slice, hposition, hposition, ← List.append_assoc,
    Nat.min_eq_left (by simp), Nat.min_eq_left (by simp), ← List.length_append,
    List.take_left, List.drop_left]

namespace Grammar

/-! ### Chains of calls -/

/-- Argument lists, and further ones behind them. -/
def Calls.append : Calls → Calls → Calls
  | .none, ds => ds
  | .call gap operands more, ds => .call gap operands (more.append ds)

/-- A phrase that is called with further argument lists. -/
def Phrase.append : Phrase → Calls → Phrase
  | .mk atom calls, ds => .mk atom (calls.append ds)

namespace Calls

theorem append_none (cs : Calls) : cs.append .none = cs := by
  cases cs with
  | none => rfl
  | call gap operands more => rw [append, append_none more]

theorem append_assoc (cs ds es : Calls) :
    (cs.append ds).append es = cs.append (ds.append es) := by
  cases cs with
  | none => rfl
  | call gap operands more => rw [append, append, append, append_assoc more]

theorem chars_append (cs ds : Calls) : (cs.append ds).chars = cs.chars ++ ds.chars := by
  cases cs with
  | none => rfl
  | call gap operands more =>
      rw [append, chars, chars, chars_append more, List.append_assoc, List.cons_append,
        List.append_assoc, List.cons_append]

theorem proper_append (cs ds : Calls) : (cs.append ds).Proper ↔ cs.Proper ∧ ds.Proper := by
  cases cs with
  | none => simp [append, Calls.Proper]
  | call gap operands more => simp [append, Calls.Proper, proper_append more, and_assoc]

theorem depth_append (cs ds : Calls) :
    (cs.append ds).depth = max cs.depth (cs.count + ds.depth) := by
  cases cs with
  | none => simp [append, depth, count]
  | call gap operands more =>
      simp only [append, depth, count, depth_append more]
      omega

theorem applied_append (cs ds : Calls) (place : Nat) (operator : Expr) :
    (cs.append ds).applied place operator =
      ds.applied (place + cs.chars.length) (cs.applied place operator) := by
  cases cs with
  | none => rfl
  | call gap operands more =>
      have hplace : place + gap.chars.length + 1 + operands.chars.length + 1 + more.chars.length =
          place + (call gap operands more).chars.length := by
        simp only [chars, List.length_append, List.length_cons]
        omega
      rw [append, applied, applied_append more, applied, hplace]

theorem exists_last (gap : Gap) (operands : Operands) (more : Calls) :
    ∃ (front : Calls) (gap' : Gap) (operands' : Operands),
      call gap operands more = front.append (.call gap' operands' .none) := by
  cases more with
  | none => exact ⟨.none, gap, operands, rfl⟩
  | call gap₂ operands₂ rest =>
      obtain ⟨front, gap', operands', hlast⟩ := exists_last gap₂ operands₂ rest
      exact ⟨.call gap operands front, gap', operands', by rw [hlast, append]⟩

theorem span_applied (cs : Calls) {start place : Nat} {operator : Expr}
    (h : operator.span = ⟨start, place⟩) :
    (cs.applied place operator).span = ⟨start, place + cs.chars.length⟩ := by
  cases cs with
  | none => exact h
  | call gap operands more =>
      have hplace : place + gap.chars.length + 1 + operands.chars.length + 1 + more.chars.length =
          place + (call gap operands more).chars.length := by
        simp only [chars, List.length_append, List.length_cons]
        omega
      rw [applied, h, ← hplace]
      exact span_applied more rfl

end Calls

namespace Phrase

theorem append_none (p : Phrase) : p.append .none = p := by
  cases p with
  | mk atom calls => rw [append, calls.append_none]

theorem append_assoc (p : Phrase) (cs ds : Calls) :
    (p.append cs).append ds = p.append (cs.append ds) := by
  cases p with
  | mk atom calls => rw [append, append, append, calls.append_assoc]

theorem chars_append (p : Phrase) (cs : Calls) : (p.append cs).chars = p.chars ++ cs.chars := by
  cases p with
  | mk atom calls => rw [append, chars, chars, calls.chars_append, List.append_assoc]

theorem proper_append (p : Phrase) (cs : Calls) :
    (p.append cs).Proper ↔ p.Proper ∧ cs.Proper := by
  cases p with
  | mk atom calls => simp [append, Phrase.Proper, calls.proper_append, and_assoc]

theorem depth_append (p : Phrase) (cs : Calls) :
    (p.append cs).depth = max p.depth (p.count + cs.depth) := by
  cases p with
  | mk atom calls => exact calls.depth_append cs

theorem expr_append (p : Phrase) (cs : Calls) (place : Nat) :
    (p.append cs).expr place = cs.applied (place + p.chars.length) (p.expr place) := by
  cases p with
  | mk atom calls =>
      rw [append, expr, calls.applied_append, chars, List.length_append, Nat.add_assoc, expr]

/-- A phrase is an atom, or a phrase that is called once more. -/
theorem atom_or_append (p : Phrase) :
    (∃ atom, p = .mk atom .none) ∨
      ∃ (q : Phrase) (gap : Gap) (operands : Operands),
        p = q.append (.call gap operands .none) := by
  cases p with
  | mk atom calls =>
      cases calls with
      | none => exact .inl ⟨atom, rfl⟩
      | call gap operands more =>
          obtain ⟨front, gap', operands', hlast⟩ := Calls.exists_last gap operands more
          exact .inr ⟨.mk atom front, gap', operands', by rw [hlast, append]⟩

theorem span_expr (p : Phrase) (place : Nat) :
    (p.expr place).span = ⟨place, place + p.chars.length⟩ := by
  cases p with
  | mk atom calls =>
      have hatom : (atom.expr place).span = ⟨place, place + atom.chars.length⟩ := by
        cases atom <;> rfl
      rw [expr, calls.span_applied hatom, chars, List.length_append, Nat.add_assoc]

/-- A phrase that is called once more is read as a call, which ends behind its bracket. -/
theorem expr_called (q : Phrase) (gap : Gap) (operands : Operands) (place : Nat) :
    (q.append (.call gap operands .none)).expr place =
      .call (q.expr place) (operands.exprs (place + q.chars.length + gap.chars.length + 1))
        ⟨place, place + q.chars.length + gap.chars.length + 1 + operands.chars.length + 1⟩ := by
  rw [expr_append, Calls.applied, Calls.applied, span_expr]

end Phrase

/-! ### Nodes and phrases -/

/-- Whether an expression is what a phrase of a text is read as, nested no deeper than
    some depth. -/
inductive ReadIn (text : List Char) (depth : Nat) : Expr → Prop where
  | phrase {u v : List Char} (p : Phrase) (hproper : p.Proper) (hdepth : p.depth ≤ depth)
      (htext : text = u ++ (p.chars ++ v)) : ReadIn text depth (p.expr u.length)

open CallLang.Expr (EachNode StandsIn)

variable {text : List Char} {depth : Nat}

mutual

theorem Phrase.eachNode_readIn (p : Phrase) {u v : List Char} (hp : p.Proper)
    (hdepth : p.depth ≤ depth) (htext : text = u ++ (p.chars ++ v)) :
    (p.expr u.length).EachNode (ReadIn text depth) := by
  cases p with
  | mk atom calls =>
      have hatom : ((Phrase.mk atom .none).expr u.length).EachNode (ReadIn text depth) := by
        apply Expr.eachNode_of_children
        · rw [Phrase.chars, List.append_assoc] at htext
          refine .phrase (.mk atom .none) ⟨hp.1, trivial⟩ (Nat.zero_le _)
            (v := calls.chars ++ v) ?_
          rw [Phrase.chars, Calls.chars, List.append_nil]
          exact htext
        · intro child hchild
          cases atom <;> cases hchild
      exact calls.eachNode_readIn (.mk atom .none) hp hdepth htext hatom

/-- Each list of a chain is one more call of what stands before it. -/
theorem Calls.eachNode_readIn (cs : Calls) (q : Phrase) {u v : List Char}
    (hproper : (q.append cs).Proper) (hdepth : (q.append cs).depth ≤ depth)
    (htext : text = u ++ ((q.append cs).chars ++ v))
    (hq : (q.expr u.length).EachNode (ReadIn text depth)) :
    ((q.append cs).expr u.length).EachNode (ReadIn text depth) := by
  cases cs with
  | none =>
      rw [q.append_none]
      exact hq
  | call gap operands more =>
      have hchain : q.append (.call gap operands more) =
          (q.append (.call gap operands .none)).append more := by
        rw [Phrase.append_assoc]
        rfl
      have hcalled := (Phrase.proper_append _ more).1 (hchain ▸ hproper)
      have hlist := (Phrase.proper_append q (.call gap operands .none)).1 hcalled.1
      have hdepths : (q.append (.call gap operands .none)).depth ≤ depth ∧
          operands.depth ≤ depth := by
        rw [Phrase.depth_append, Calls.depth] at hdepth
        rw [Phrase.depth_append, Calls.depth, Calls.depth]
        omega
      have hinside : text = (u ++ (q.chars ++ (gap.chars ++ ['(']))) ++
          (operands.chars ++ (')' :: (more.chars ++ v))) := by
        rw [htext, Phrase.chars_append, Calls.chars]
        simp
      have hbehind : text = u ++ ((q.append (.call gap operands .none)).chars ++
          (more.chars ++ v)) := by
        rw [htext, hchain, Phrase.chars_append _ more, List.append_assoc]
      have harguments := operands.eachNode_readIn hlist.2.2.1 hdepths.2 hinside
      have hlength : (u ++ (q.chars ++ (gap.chars ++ ['(']))).length =
          u.length + q.chars.length + gap.chars.length + 1 := by
        simp only [List.length_append, List.length_cons, List.length_nil]
        omega
      rw [hlength] at harguments
      rw [hchain] at hproper hdepth htext ⊢
      refine more.eachNode_readIn (q.append (.call gap operands .none)) hproper hdepth htext ?_
      have hcall := ReadIn.phrase _ hcalled.1 hdepths.1 hbehind
      rw [Phrase.expr_called] at hcall ⊢
      exact Expr.eachNode_call hcall hq harguments

theorem Operands.eachNode_readIn (o : Operands) {u v : List Char} (ho : o.Proper)
    (hdepth : o.depth ≤ depth) (htext : text = u ++ (o.chars ++ v)) :
    ∀ e ∈ o.exprs u.length, e.EachNode (ReadIn text depth) := by
  cases o with
  | none gap => exact fun e he => absurd he List.not_mem_nil
  | some slots => exact slots.eachNode_readIn ho hdepth htext

theorem Slots.eachNode_readIn (ss : Slots) {u v : List Char} (hss : ss.Proper)
    (hdepth : ss.depth ≤ depth) (htext : text = u ++ (ss.chars ++ v)) :
    ∀ e ∈ ss.exprs u.length, e.EachNode (ReadIn text depth) := by
  intro e he
  cases ss with
  | last before phrase after =>
      obtain rfl : e = _ := List.mem_singleton.1 he
      rw [← List.length_append]
      apply phrase.eachNode_readIn hss.2.1 hdepth (v := after.chars ++ v)
      simp [htext, Slots.chars]
  | more before phrase after rest =>
      have hdepths := Nat.max_le.1 hdepth
      simp only [Slots.exprs] at he
      rcases List.mem_cons.1 he with rfl | he
      · rw [← List.length_append]
        apply phrase.eachNode_readIn hss.2.1 hdepths.1 (v := after.chars ++ ',' :: (rest.chars ++ v))
        simp [htext, Slots.chars]
      · have hrest : text = (u ++ (before.chars ++ (phrase.chars ++ (after.chars ++ [','])))) ++
            (rest.chars ++ v) := by
          simp [htext, Slots.chars]
        refine rest.eachNode_readIn hss.2.2.2 hdepths.2 hrest e ?_
        have hlength : (u ++ (before.chars ++ (phrase.chars ++ (after.chars ++ [','])))).length =
            u.length + before.chars.length + phrase.chars.length + after.chars.length + 1 := by
          simp only [List.length_append, List.length_cons, List.length_nil]
          omega
        rw [hlength]
        exact he

end

/-- Where a piece of a text ends. -/
theorem end_le {u piece v : List Char} (htext : text = u ++ (piece ++ v)) :
    u.length + piece.length ≤ text.length := by
  rw [htext, ← List.append_assoc, List.length_append, List.length_append]
  exact Nat.le_add_right _ _

theorem ReadIn.standsIn {e : Expr} (h : ReadIn text depth e) : e.StandsIn text := by
  obtain ⟨p, hproper, -, htext⟩ := h
  obtain ⟨c, rest, hcons, -⟩ := Phrase.chars_eq_cons hproper
  constructor
  · rw [p.span_expr, hcons]
    simp
  · rw [p.span_expr]
    exact end_le htext
  · intro name span hname
    rcases p.atom_or_append with ⟨atom, rfl⟩ | ⟨q, gap, operands, rfl⟩
    · cases atom with
      | word characters =>
          cases hname
          rw [String.toList_ofList, htext, Phrase.chars, Calls.chars, List.append_nil]
          exact Text.slice_append _ characters _
      | _ => cases hname
    · rw [Phrase.expr_called] at hname
      cases hname

end Grammar

/-- All nodes of a program are what phrases of its text are read as, nested no deeper than the
    limit. -/
theorem Expr.readIn_of_parse {limit : Nat} {source : String} {program : Expr}
    (h : Expr.parse limit source = .ok program) :
    program.EachNode (Grammar.ReadIn source.toList limit) := by
  obtain ⟨d, hderives, rfl⟩ := Reader.derives_of_parse h
  rw [Reader.parse_eq_of_derives hderives, Reader.within] at h
  have hdepth : d.phrase.depth ≤ limit := by
    by_contra hdeep
    rw [if_neg (by simpa using hdeep)] at h
    cases h
  exact d.phrase.eachNode_readIn hderives.1.2.1 hdepth hderives.2.symm

/-- All nodes of a program have their places in its text. -/
theorem Expr.standsIn_of_parse {limit : Nat} {source : String} {program node : Expr}
    (h : Expr.parse limit source = .ok program) (hnode : program.HasNode node) :
    node.StandsIn source.toList :=
  (Expr.readIn_of_parse h node hnode).standsIn

end CallLang
