/-
  CallLang/Proofs/Spans.lean
  ==========================
  **What the places of nodes say.**

  The places of the nodes of a program are exact.  The parts of a call stand one behind
  the other, with nothing between them but blanks, comments and the marks of the call
  itself, and the piece of the text that a node covers is a program, which is read as the
  node: what stands before and behind the piece has no influence on it.

  The piece is read within the same limit, for no phrase in a text is nested deeper than
  the text.
-/
import CallLang.Proofs.Nodes

namespace CallLang

/-! ### Moving -/

def Span.moved (offset : Nat) (span : Span) : Span :=
  ⟨span.start + offset, span.stop + offset⟩

mutual

/-- An expression that is read so many characters later. -/
def Expr.moved (offset : Nat) : Expr → Expr
  | .literal value span => .literal value (span.moved offset)
  | .name text span => .name text (span.moved offset)
  | .call operator arguments span =>
    .call (operator.moved offset) (Expr.allMoved offset arguments) (span.moved offset)
  | .hole => .hole

def Expr.allMoved (offset : Nat) : List Expr → List Expr
  | [] => []
  | expr :: rest => expr.moved offset :: Expr.allMoved offset rest

end

namespace Grammar

variable {text u v : List Char}

theorem Atom.expr_add (a : Atom) (place offset : Nat) :
    a.expr (place + offset) = (a.expr place).moved offset := by
  cases a <;> simp [Atom.expr, Expr.moved, Span.moved, Nat.add_right_comm]

mutual

theorem Phrase.expr_add (p : Phrase) (place offset : Nat) :
    p.expr (place + offset) = (p.expr place).moved offset := by
  cases p with
  | mk atom calls =>
      have hspan : ((atom.expr place).moved offset).span = (atom.expr place).span.moved offset := by
        cases atom <;> rfl
      rw [Phrase.expr, Phrase.expr, Atom.expr_add, Nat.add_right_comm]
      exact calls.applied_add _ offset _ hspan

theorem Calls.applied_add (cs : Calls) (place offset : Nat) (operator : Expr)
    (hspan : (operator.moved offset).span = operator.span.moved offset) :
    cs.applied (place + offset) (operator.moved offset) =
      (cs.applied place operator).moved offset := by
  cases cs with
  | none => rfl
  | call gap operands more =>
      have hstart : (operator.moved offset).span.start = operator.span.start + offset := by
        rw [hspan]
        rfl
      let inside := place + gap.chars.length + 1
      let stop := inside + operands.chars.length + 1
      simp only [Calls.applied, hstart, Nat.add_right_comm _ offset]
      rw [operands.exprs_add inside offset]
      exact more.applied_add stop offset
        (.call operator (operands.exprs inside) ⟨operator.span.start, stop⟩) rfl

theorem Operands.exprs_add (o : Operands) (place offset : Nat) :
    o.exprs (place + offset) = Expr.allMoved offset (o.exprs place) := by
  cases o with
  | none gap => rfl
  | some slots => exact slots.exprs_add place offset

theorem Slots.exprs_add (ss : Slots) (place offset : Nat) :
    ss.exprs (place + offset) = Expr.allMoved offset (ss.exprs place) := by
  cases ss with
  | last before phrase after =>
      simp only [Slots.exprs, Expr.allMoved, Nat.add_right_comm _ offset]
      rw [phrase.expr_add (place + before.chars.length) offset]
  | more before phrase after rest =>
      simp only [Slots.exprs, Expr.allMoved, Nat.add_right_comm _ offset]
      rw [phrase.expr_add (place + before.chars.length) offset, rest.exprs_add]

end

/-- The piece of a text that a phrase takes up is read as the phrase, wherever it stands. -/
theorem ReadIn.parse_slice {depth : Nat} {e : Expr} (h : ReadIn text depth e) :
    ∃ part, Expr.parse depth (String.ofList (Text.slice text e.span.start e.span.stop)) = .ok part ∧
      e = part.moved e.span.start := by
  obtain ⟨p, hproper, hdepth, htext⟩ := h
  have hderives : Derivation.Derives ⟨[], p, []⟩ (String.ofList p.chars) := by
    refine ⟨⟨trivial, hproper, trivial⟩, ?_⟩
    simp [Derivation.chars, Gap.chars]
  refine ⟨p.expr 0, ?_, ?_⟩
  · rw [p.span_expr, htext, Text.slice_append, Reader.parse_eq_of_derives hderives, Reader.within]
    exact if_pos hdepth
  · rw [p.span_expr, ← p.expr_add, Nat.zero_add]

end Grammar

/-! ### The layout of calls -/

/-- Whether there is nothing between two places of a text but blanks and comments. -/
def Text.Blank (text : List Char) (start stop : Nat) : Prop :=
  start ≤ stop ∧
    ∃ gap : Grammar.Gap, gap.Before text[stop]? ∧ Text.slice text start stop = gap.chars

/-- Whether there is nothing between two places of a text but a mark, blanks and
    comments. -/
def Text.Separated (text : List Char) (mark : Char) (start stop : Nat) : Prop :=
  ∃ place, Text.Blank text start place ∧ text[place]? = some mark ∧
    Text.Blank text (place + 1) stop

/-- Whether arguments stand one behind the other between a mark that comes behind a place
    and a closing bracket.  The first argument stands behind the mark, which is the opening
    bracket of the call, and all others behind commas. -/
inductive Text.Row (text : List Char) (bracket : Nat) : Char → Nat → List Expr → Prop where
  | none {place : Nat} (h : Text.Separated text '(' place bracket) :
      Text.Row text bracket '(' place []
  | last {mark : Char} {place : Nat} {e : Expr}
      (hbefore : Text.Separated text mark place e.span.start)
      (hafter : Text.Blank text e.span.stop bracket) : Text.Row text bracket mark place [e]
  | more {mark : Char} {place : Nat} {e : Expr} {rest : List Expr}
      (hbefore : Text.Separated text mark place e.span.start)
      (hrest : Text.Row text bracket ',' e.span.stop rest) :
      Text.Row text bracket mark place (e :: rest)

/-- Whether a node stands in a text as its parts do.  A call begins where its operator begins
    and ends behind its own closing bracket. -/
inductive Expr.LaidOut (text : List Char) : Expr → Prop where
  | literal (value : Value) (span : Span) : Expr.LaidOut text (.literal value span)
  | name (name : String) (span : Span) : Expr.LaidOut text (.name name span)
  | call {operator : Expr} {arguments : List Expr} {span : Span} {bracket : Nat}
      (hstart : span.start = operator.span.start)
      (hrow : Text.Row text bracket '(' operator.span.stop arguments)
      (hbracket : text[bracket]? = some ')') (hstop : span.stop = bracket + 1) :
      Expr.LaidOut text (.call operator arguments span)

namespace Text

variable {text u v : List Char} {bracket place : Nat} {mark : Char}

theorem getElem?_append_head (u v : List Char) : (u ++ v)[u.length]? = v.head? := by
  rw [List.getElem?_append_right (Nat.le_refl _), Nat.sub_self, List.head?_eq_getElem?]

theorem blank_of_gap {gap : Grammar.Gap} (h : gap.Before v.head?)
    (htext : text = u ++ (gap.chars ++ v)) : Blank text u.length (u.length + gap.chars.length) := by
  refine ⟨Nat.le_add_right _ _, gap, ?_, ?_⟩
  · rw [htext, ← List.append_assoc, ← List.length_append, getElem?_append_head]
    exact h
  · rw [htext]
    exact slice_append u gap.chars v

theorem separated_of_gaps {before after : Grammar.Gap} (hbefore : before.Before (some mark))
    (hafter : after.Before v.head?)
    (htext : text = u ++ (before.chars ++ mark :: (after.chars ++ v))) :
    Separated text mark u.length (u.length + before.chars.length + 1 + after.chars.length) := by
  refine ⟨u.length + before.chars.length, ?_, ?_, ?_⟩
  · exact blank_of_gap (v := mark :: (after.chars ++ v)) hbefore htext
  · rw [htext, ← List.append_assoc, ← List.length_append, getElem?_append_head]
    rfl
  · have hbehind : text = (u ++ (before.chars ++ [mark])) ++ (after.chars ++ v) := by
      simp [htext]
    have hblank := blank_of_gap hafter hbehind
    have hlength : (u ++ (before.chars ++ [mark])).length = u.length + before.chars.length + 1 := by
      simp [Nat.add_assoc]
    rw [hlength] at hblank
    exact hblank

theorem Separated.lt {start stop : Nat} (h : Separated text mark start stop) : start < stop := by
  obtain ⟨place, hbefore, -, hafter⟩ := h
  exact Nat.lt_of_le_of_lt hbefore.1 hafter.1

/-- Arguments in a row do not overlap. -/
theorem Row.ordered {es : List Expr} (h : Row text bracket mark place es)
    (hes : ∀ e ∈ es, e.span.start < e.span.stop) :
    place < bracket ∧ (∀ e ∈ es, place < e.span.start ∧ e.span.stop ≤ bracket) ∧
      es.Pairwise (fun e other => e.span.stop < other.span.start) := by
  induction h with
  | none h => exact ⟨h.lt, by simp, .nil⟩
  | last hbefore hafter =>
      have hlt := hes _ List.mem_cons_self
      refine ⟨?_, ?_, List.pairwise_singleton _ _⟩
      · exact Nat.lt_of_lt_of_le (Nat.lt_trans hbefore.lt hlt) hafter.1
      · intro other hother
        obtain rfl := List.mem_singleton.1 hother
        exact ⟨hbefore.lt, hafter.1⟩
  | more hbefore hrest ih =>
      have hlt := hes _ List.mem_cons_self
      obtain ⟨hbracket, hwithin, hordered⟩ := ih fun other hother =>
        hes other (List.mem_cons_of_mem _ hother)
      have hplace := Nat.lt_trans hbefore.lt hlt
      refine ⟨Nat.lt_trans hplace hbracket, ?_, ?_⟩
      · intro other hother
        rcases List.mem_cons.1 hother with rfl | hother
        · exact ⟨hbefore.lt, Nat.le_of_lt hbracket⟩
        · exact ⟨Nat.lt_trans hplace (hwithin other hother).1, (hwithin other hother).2⟩
      · exact List.pairwise_cons.2 ⟨fun other hother => (hwithin other hother).1, hordered⟩

end Text

namespace Expr

variable {text : List Char}

/-- The parts of a node lie within it, one behind the other. -/
theorem LaidOut.ordered {e : Expr} (h : e.LaidOut text)
    (hchildren : ∀ child ∈ e.children, child.span.start < child.span.stop) :
    (∀ child ∈ e.children, e.span.start ≤ child.span.start ∧ child.span.stop ≤ e.span.stop) ∧
      e.children.Pairwise (fun child other => child.span.stop < other.span.start) := by
  cases h with
  | literal value span => exact ⟨nofun, .nil⟩
  | name name span => exact ⟨nofun, .nil⟩
  | @call operator arguments span bracket hstart hrow _ hstop =>
      obtain ⟨hend, hwithin, hordered⟩ := hrow.ordered fun e he =>
        hchildren e (List.mem_cons_of_mem _ he)
      have hoperator := hchildren operator List.mem_cons_self
      constructor
      · intro child hchild
        change span.start ≤ child.span.start ∧ child.span.stop ≤ span.stop
        rw [hstart, hstop]
        rcases List.mem_cons.1 hchild with rfl | hchild
        · exact ⟨Nat.le_refl _, Nat.le_succ_of_le (Nat.le_of_lt hend)⟩
        · obtain ⟨hbehind, hbefore⟩ := hwithin child hchild
          exact ⟨Nat.le_of_lt (Nat.lt_trans hoperator hbehind), Nat.le_succ_of_le hbefore⟩
      · exact List.pairwise_cons.2 ⟨fun child hchild => (hwithin child hchild).1, hordered⟩

end Expr

namespace Grammar

variable {text u v : List Char} {depth : Nat}

/-- The arguments between the brackets of a call stand in a row. -/
theorem Slots.row (ss : Slots) {mark : Char} {gap : Gap} {u : List Char} (hss : ss.Proper)
    (hgap : gap.Before (some mark))
    (htext : text = u ++ (gap.chars ++ mark :: (ss.chars ++ ')' :: v))) :
    Text.Row text (u.length + gap.chars.length + 1 + ss.chars.length) mark u.length
      (ss.exprs (u.length + gap.chars.length + 1)) := by
  cases ss with
  | last before phrase after =>
      let front := u ++ (gap.chars ++ mark :: (before.chars ++ phrase.chars))
      have hfront : front.length = u.length + gap.chars.length + 1 + before.chars.length +
          phrase.chars.length := by
        simp only [front, List.length_append, List.length_cons]
        omega
      have hbefore : Text.Separated text mark u.length
          (u.length + gap.chars.length + 1 + before.chars.length) := by
        apply Text.separated_of_gaps hgap (v := phrase.chars ++ (after.chars ++ ')' :: v))
        · rw [Phrase.head?_append hss.2.1]
          exact hss.1
        · simp [htext, Slots.chars]
      have hafter : Text.Blank text front.length (front.length + after.chars.length) := by
        apply Text.blank_of_gap (v := ')' :: v)
        · exact hss.2.2
        · simp [front, htext, Slots.chars]
      have hbracket : u.length + gap.chars.length + 1 + (Slots.last before phrase after).chars.length =
          front.length + after.chars.length := by
        simp only [hfront, Slots.chars, List.length_append]
        omega
      rw [hbracket, Slots.exprs]
      refine .last ?_ ?_
      · rw [phrase.span_expr]
        exact hbefore
      · rw [phrase.span_expr, ← hfront]
        exact hafter
  | more before phrase after rest =>
      let front := u ++ (gap.chars ++ mark :: (before.chars ++ phrase.chars))
      have hfront : front.length = u.length + gap.chars.length + 1 + before.chars.length +
          phrase.chars.length := by
        simp only [front, List.length_append, List.length_cons]
        omega
      have hbefore : Text.Separated text mark u.length
          (u.length + gap.chars.length + 1 + before.chars.length) := by
        apply Text.separated_of_gaps hgap
          (v := phrase.chars ++ (after.chars ++ ',' :: (rest.chars ++ ')' :: v)))
        · rw [Phrase.head?_append hss.2.1]
          exact hss.1
        · simp [htext, Slots.chars]
      have hbehind : text = front ++ (after.chars ++ ',' :: (rest.chars ++ ')' :: v)) := by
        simp [front, htext, Slots.chars]
      have hrest := rest.row hss.2.2.2 hss.2.2.1 hbehind
      have hbracket : u.length + gap.chars.length + 1 +
            (Slots.more before phrase after rest).chars.length =
          front.length + after.chars.length + 1 + rest.chars.length := by
        simp only [hfront, Slots.chars, List.length_append, List.length_cons]
        omega
      rw [hbracket, Slots.exprs]
      refine .more ?_ ?_
      · rw [phrase.span_expr]
        exact hbefore
      · rw [phrase.span_expr, ← hfront]
        exact hrest

theorem Operands.row (o : Operands) {gap : Gap} {u : List Char} (ho : o.Proper)
    (hgap : gap.Before (Option.some '('))
    (htext : text = u ++ (gap.chars ++ '(' :: (o.chars ++ ')' :: v))) :
    Text.Row text (u.length + gap.chars.length + 1 + o.chars.length) '(' u.length
      (o.exprs (u.length + gap.chars.length + 1)) := by
  cases o with
  | none inner => exact .none (Text.separated_of_gaps (v := ')' :: v) hgap ho htext)
  | some slots => exact slots.row ho hgap htext

theorem ReadIn.laidOut {e : Expr} (h : ReadIn text depth e) : e.LaidOut text := by
  obtain @⟨u, v, p, hproper, -, htext⟩ := h
  rcases p.atom_or_append with ⟨atom, rfl⟩ | ⟨q, gap, operands, rfl⟩
  · cases atom with
    | text contents => exact .literal _ _
    | number digits => exact .literal _ _
    | word name => exact .name _ _
  · have hcall := ((Phrase.proper_append q _).1 hproper).2
    let inside := u.length + q.chars.length + gap.chars.length + 1
    have hbehind : text = (u ++ q.chars) ++ (gap.chars ++ '(' :: (operands.chars ++ ')' :: v)) := by
      simp [htext, Phrase.chars_append, Calls.chars]
    have hrow := operands.row hcall.2.1 hcall.1 hbehind
    have hclosing : text = (u ++ q.chars ++ (gap.chars ++ '(' :: operands.chars)) ++ ')' :: v := by
      simp [hbehind]
    have hlength : (u ++ q.chars ++ (gap.chars ++ '(' :: operands.chars)).length =
        inside + operands.chars.length := by
      simp only [inside, List.length_append, List.length_cons]
      omega
    have hbracket : text[inside + operands.chars.length]? = some ')' := by
      rw [hclosing, ← hlength, Text.getElem?_append_head]
      rfl
    rw [List.length_append] at hrow
    rw [Phrase.expr_called]
    refine .call ?_ ?_ hbracket rfl
    · rw [q.span_expr]
    · rw [q.span_expr]
      exact hrow

end Grammar

/-- The places of the nodes of a program are exact. -/
theorem Expr.spans_exact {limit : Nat} {source : String} {program node : Expr}
    (h : Expr.parse limit source = .ok program) (hnode : program.HasNode node) :
    let text := source.toList
    let span := node.span
    (span.start < span.stop ∧ span.stop ≤ source.length) ∧
      (∀ child ∈ node.children, span.start ≤ child.span.start ∧ child.span.stop ≤ span.stop) ∧
      node.children.Pairwise (fun child other => child.span.stop < other.span.start) ∧
      node.LaidOut text ∧
      ∃ part, Expr.parse limit (String.ofList (Text.slice text span.start span.stop)) = .ok part ∧
        node = part.moved span.start := by
  intro text span
  have hread := Expr.readIn_of_parse h
  have hplace := (hread node hnode).standsIn
  have hlaid := (hread node hnode).laidOut
  have hordered := hlaid.ordered fun child hchild =>
    ((hread child (hnode.child hchild)).standsIn).start_lt
  refine ⟨⟨hplace.start_lt, ?_⟩, hordered.1, hordered.2, hlaid, (hread node hnode).parse_slice⟩
  rw [← String.length_toList]
  exact hplace.stop_le

/-- The operator of the second call is a call itself, and the text that it covers is read as a
    call of its own. -/
theorem Expr.spans_exact_chain :
    let inner : Expr := .call (.name "f" ⟨1, 2⟩) [.name "g" ⟨4, 5⟩] ⟨1, 7⟩
    Expr.parse 2 " f( g ) (x)" = .ok (.call inner [.name "x" ⟨9, 10⟩] ⟨1, 11⟩) ∧
      ∃ part, Expr.parse 2 "f( g )" = .ok part ∧ inner = part.moved 1 := by
  intro inner
  have hparse : Expr.parse 2 " f( g ) (x)" = .ok (.call inner [.name "x" ⟨9, 10⟩] ⟨1, 11⟩) := by
    simp only [inner]
    cbv
  have hnode : (Expr.call inner [.name "x" ⟨9, 10⟩] ⟨1, 11⟩).HasNode inner :=
    (Expr.hasNode_refl _).child List.mem_cons_self
  obtain ⟨-, -, -, -, part, hpart, hmoved⟩ := Expr.spans_exact hparse hnode
  exact ⟨hparse, part, hpart, hmoved⟩

end CallLang
