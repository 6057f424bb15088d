/-
  CallLang/Proofs/Dumps.lean
  ==========================
  **Dumps identify trees.**

  A dump shows everything that trees are compared by and nothing else.  An atom ends with the
  bracket that its kind has opened, and the text inside is a numeral or stands between
  quotation marks; so an atom is told from whatever comes next.  From there the two forms
  differ.  In an outline a tree tells by its first word what it is.  In a dump on one line the
  operator comes first, so it takes all calls around an atom at once (`Expr.applied`), and a
  tree is told from what comes next unless that is one more call.

  What stands between the items of a row and behind the last one begins differently, which is
  all that matters for `trail_append_inj`.
-/
import CallLang.Expr.Dump
import CallLang.Proofs.Grammar
import CallLang.Proofs.NumberLine
import CallLang.Proofs.NumberTexts
import CallLang.Proofs.Plain
import CallLang.Proofs.Quotations

namespace CallLang

/-! ### Numerals in brackets -/

namespace Text

theorem ofInt_append_inj {m n : Int} {rest rest' : List Char}
    (heq : (ofInt m).toList ++ ')' :: rest = (ofInt n).toList ++ ')' :: rest') :
    m = n ∧ rest = rest' := by
  have hsigned : ∀ n : Int, ∀ c ∈ (ofInt n).toList, (c.isDigit || c == '-') = true := by
    intro n c hmem
    rcases mem_ofInt c hmem with h | rfl
    · rw [h, Bool.true_or]
    · rfl
  have hstop : ∀ (rest : List Char) c, (')' :: rest).head? = some c →
      (c.isDigit || c == '-') = false := by
    rintro rest c ⟨rfl⟩
    rfl
  obtain ⟨hnumerals, hrest⟩ := Grammar.append_inj_of_stop (p := fun c => c.isDigit || c == '-')
    (hsigned m) (hsigned n) (hstop rest) (hstop rest') heq
  exact ⟨ofInt_inj (String.toList_injective hnumerals), (List.cons.inj hrest).2⟩

theorem ofInt_append_ne_quoted {n : Int} {text : String} {rest rest' : List Char} :
    (ofInt n).toList ++ ')' :: rest ≠ (quoted text).toList ++ rest' := by
  intro heq
  rw [toList_quoted] at heq
  have hmark := isMark_quoteMark text.toList
  cases hnumeral : (ofInt n).toList with
  | nil =>
      rw [hnumeral] at heq
      rw [← (List.cons.inj heq).1] at hmark
      rcases hmark with h | h <;> exact absurd h (by decide)
  | cons c chars =>
      rw [hnumeral] at heq
      have hc := mem_ofInt c (hnumeral ▸ List.mem_cons_self)
      rw [(List.cons.inj heq).1] at hc
      rcases hmark with h | h <;> rw [h] at hc <;> exact absurd hc (by decide)

end Text

namespace Expr

variable {a b e e' : Expr} {es es' : List Expr} {rest rest' : List Char}
  {scopeText : ScopeId → String}

/-! ### Items -/

theorem dumps_eq_map (es : List Expr) : dumps scopeText es = es.map (dump scopeText) := by
  induction es with
  | nil => rfl
  | cons e es ih => rw [dumps, ih, List.map_cons]

theorem outlines_eq_map (depth : Int) (es : List Expr) :
    outlines scopeText depth es = es.map (outline scopeText depth) := by
  induction es with
  | nil => rfl
  | cons e es ih => rw [outlines, ih, List.map_cons]

/-! ### Atoms -/

/-- Whether a tree is an atom that could have been read from a text. -/
inductive Leaf : Expr → Prop where
  | int (n : Int) (span : Span) : Leaf (.literal (.int n) span)
  | string (text : String) (span : Span) : Leaf (.literal (.string text) span)
  | name (text : String) (span : Span) : Leaf (.name text span)

/-- What a dump shows of an atom inside of the brackets. -/
theorem toList_append_bracket (kind text : String) :
    (kind ++ text ++ ")").toList ++ rest = kind.toList ++ (text.toList ++ ')' :: rest) := by
  rw [String.toList_append, String.toList_append, List.append_assoc, List.append_assoc]
  rfl

theorem toList_dump_int (n : Int) (span : Span) :
    (dump scopeText (.literal (.int n) span)).toList ++ rest =
      "Literal(".toList ++ ((Text.ofInt n).toList ++ ')' :: rest) :=
  toList_append_bracket _ _

theorem toList_dump_string (text : String) (span : Span) :
    (dump scopeText (.literal (.string text) span)).toList ++ rest =
      "Literal(".toList ++ ((Text.quoted text).toList ++ ')' :: rest) :=
  toList_append_bracket _ _

theorem toList_dump_name (text : String) (span : Span) :
    (dump scopeText (.name text span)).toList ++ rest =
      "Identifier(".toList ++ ((Text.quoted text).toList ++ ')' :: rest) :=
  toList_append_bracket _ _

theorem Leaf.append_inj (h : e.Leaf) (h' : e'.Leaf)
    (heq : (e.dump scopeText).toList ++ rest = (e'.dump scopeText).toList ++ rest') :
    e.alike e' = true ∧ rest = rest' := by
  have hkinds : ∀ x y : List Char, "Literal(".toList ++ x ≠ "Identifier(".toList ++ y :=
    fun x y heq => absurd (List.cons.inj heq).1 (by decide)
  cases h <;> cases h' <;>
    simp only [toList_dump_int, toList_dump_string, toList_dump_name] at heq
  case int.int m span n span' =>
    obtain ⟨rfl, hrest⟩ := Text.ofInt_append_inj (List.append_cancel_left heq)
    exact ⟨(Number.equal_ints m m).trans (decide_eq_true rfl), hrest⟩
  case int.string => exact absurd (List.append_cancel_left heq) Text.ofInt_append_ne_quoted
  case int.name => exact absurd heq (hkinds _ _)
  case string.int => exact absurd (List.append_cancel_left heq).symm Text.ofInt_append_ne_quoted
  case string.string text span text' span' =>
    obtain ⟨rfl, hrest⟩ := Text.quoted_append_inj (List.append_cancel_left heq)
    exact ⟨by simp [alike, Value.alike], (List.cons.inj hrest).2⟩
  case string.name => exact absurd heq (hkinds _ _)
  case name.int => exact absurd heq.symm (hkinds _ _)
  case name.string => exact absurd heq.symm (hkinds _ _)
  case name.name text span text' span' =>
    obtain ⟨rfl, hrest⟩ := Text.quoted_append_inj (List.append_cancel_left heq)
    exact ⟨by simp [alike], (List.cons.inj hrest).2⟩

/-! ### Rows -/

/-- Whether what is written for a tree is told from whatever may come next. -/
def Separates (write : Expr → String) (Ends : List Char → Prop) (e : Expr) : Prop :=
  ∀ ⦃e' : Expr⦄ ⦃rest rest' : List Char⦄, e'.Plain → Ends rest → Ends rest' →
    (write e).toList ++ rest = (write e').toList ++ rest' → e.alike e' = true ∧ rest = rest'

section

variable {write : Expr → String} {separator : String} {Ends : List Char → Prop}

/-- What follows the first item of a row. -/
def trail (write : Expr → String) (separator : String) : List Expr → List Char
  | [] => []
  | e :: es => separator.toList ++ ((write e).toList ++ trail write separator es)

theorem toList_intercalate_cons (e : Expr) (es : List Expr) :
    (separator.intercalate ((e :: es).map write)).toList =
      (write e).toList ++ trail write separator es := by
  induction es generalizing e with
  | nil => rw [List.map_singleton, String.intercalate_singleton, trail, List.append_nil]
  | cons next es ih =>
      rw [List.map_cons, List.map_cons, String.intercalate_cons_cons, ← List.map_cons,
        String.toList_append, String.toList_append, ih, trail, List.append_assoc]

/-- Rows of items are told from what comes next if what closes them does not begin as what
    stands between the items does. -/
theorem trail_append_inj {gap : List Char} (c : Char) (closing : List Char)
    (hgap : separator.toList = ',' :: gap) (hclosing : c ≠ ',')
    (hends : ∀ rest, Ends (',' :: rest) ∧ Ends (c :: rest))
    (hes : ∀ e ∈ es, Separates write Ends e) (hes' : ∀ e ∈ es', e.Plain)
    (heq : trail write separator es ++ c :: (closing ++ rest) =
      trail write separator es' ++ c :: (closing ++ rest')) :
    allAlike es es' = true ∧ rest = rest' := by
  have hnext : ∀ (es : List Expr) (rest : List Char),
      Ends (trail write separator es ++ c :: (closing ++ rest)) := by
    intro es rest
    cases es with
    | nil => exact (hends _).2
    | cons e es =>
        rw [trail, hgap]
        exact (hends _).1
  induction es generalizing es' with
  | nil =>
      cases es' with
      | nil => exact ⟨rfl, List.append_cancel_left (List.cons.inj heq).2⟩
      | cons e' es' =>
          rw [trail, trail, hgap] at heq
          exact absurd (List.cons.inj heq).1 hclosing
  | cons e es ih =>
      cases es' with
      | nil =>
          rw [trail, trail, hgap] at heq
          exact absurd (List.cons.inj heq).1.symm hclosing
      | cons e' es' =>
          simp only [trail, List.append_assoc] at heq
          obtain ⟨he, hes⟩ := List.forall_mem_cons.1 hes
          obtain ⟨he', hes'⟩ := List.forall_mem_cons.1 hes'
          obtain ⟨halike, htrail⟩ := he he' (hnext _ _) (hnext _ _) (List.append_cancel_left heq)
          obtain ⟨halikes, hrest⟩ := ih hes hes' htrail
          exact ⟨by rw [allAlike, halike, halikes]; rfl, hrest⟩

theorem row_append_inj {gap : List Char} (c : Char) (closing : List Char)
    (hgap : separator.toList = ',' :: gap) (hclosing : c ≠ ',')
    (hends : ∀ rest, Ends (',' :: rest) ∧ Ends (c :: rest))
    (hes : ∀ a ∈ e :: es, Separates write Ends a) (hes' : ∀ a ∈ e' :: es', a.Plain)
    (heq : (write e).toList ++ (trail write separator es ++ c :: (closing ++ rest)) =
      (write e').toList ++ (trail write separator es' ++ c :: (closing ++ rest'))) :
    allAlike (e :: es) (e' :: es') = true ∧ rest = rest' := by
  refine trail_append_inj c closing hgap hclosing hends hes hes' ?_
  simp only [trail, List.append_assoc, heq]

end

/-! ### Dumps on one line -/

/-- A tree with calls around it, the innermost first. -/
def applied (e : Expr) (calls : List (List Expr × Span)) : Expr :=
  calls.foldl (fun operator call => .call operator call.1 call.2) e

/-- What a dump shows of calls around a tree. -/
def brackets (scopeText : ScopeId → String) : List (List Expr × Span) → List Char
  | [] => []
  | (arguments, _) :: calls =>
    '(' :: ((commaSeparated (dumps scopeText arguments)).toList ++ ')' :: brackets scopeText calls)

theorem toList_dump_applied (e : Expr) (calls : List (List Expr × Span)) :
    ((e.applied calls).dump scopeText).toList =
      (e.dump scopeText).toList ++ brackets scopeText calls := by
  induction calls generalizing e with
  | nil => exact (List.append_nil _).symm
  | cons entry calls ih =>
      rw [applied, List.foldl_cons, ← applied, ih, dump, String.toList_append,
        String.toList_append, String.toList_append, brackets]
      simp only [List.append_assoc]
      rfl

/-- Every tree that could have been read is an atom with calls around it. -/
theorem Plain.exists_applied (h : e.Plain) : ∃ (atom : Expr) (calls : List (List Expr × Span)),
    atom.Leaf ∧ e = atom.applied calls ∧
      ∀ entry ∈ calls, ∀ argument ∈ entry.1, argument.Plain := by
  induction h with
  | int n span => exact ⟨_, [], .int n span, rfl, nofun⟩
  | string text span => exact ⟨_, [], .string text span, rfl, nofun⟩
  | name text span => exact ⟨_, [], .name text span, rfl, nofun⟩
  | @call operator arguments span _ harguments ih _ =>
      obtain ⟨atom, calls, hatom, rfl, hcalls⟩ := ih
      refine ⟨atom, calls ++ [(arguments, span)], hatom, ?_, ?_⟩
      · rw [applied, applied, List.foldl_append]
        rfl
      · intro entry hmem
        rcases List.mem_append.1 hmem with hmem | hmem
        · exact hcalls entry hmem
        · obtain rfl := List.mem_singleton.1 hmem
          exact harguments

theorem alike_applied {calls calls' : List (List Expr × Span)} (h : a.alike b = true)
    (hcalls : List.Forall₂ (fun entry entry' => allAlike entry.1 entry'.1 = true) calls calls') :
    (a.applied calls).alike (b.applied calls') = true := by
  induction hcalls generalizing a b with
  | nil => exact h
  | cons hcall _ ih => exact ih (by rw [alike, h, hcall]; rfl)

/-- Whether a text does not go on with one more call. -/
def EndsCalls (rest : List Char) : Prop :=
  rest.head? ≠ some '('

/-- The dump of a tree begins with a letter, as that of the atom in it does. -/
theorem Plain.dump_append_ne (h : e.Plain) (chars : List Char) :
    (e.dump scopeText).toList ++ rest ≠ ')' :: chars := by
  obtain ⟨atom, calls, hatom, rfl, -⟩ := h.exists_applied
  rw [toList_dump_applied, List.append_assoc]
  intro heq
  cases hatom <;> simp only [toList_dump_int, toList_dump_string, toList_dump_name] at heq <;>
    exact absurd (List.cons.inj heq).1 (by decide)

theorem toList_arguments (e : Expr) (es : List Expr) :
    (commaSeparated (dumps scopeText (e :: es))).toList ++ ')' :: rest =
      (e.dump scopeText).toList ++ (trail (dump scopeText) ", " es ++ ')' :: rest) := by
  rw [dumps_eq_map, commaSeparated, toList_intercalate_cons, List.append_assoc]

theorem endsCalls_cons {c : Char} (h : c ≠ '(') (rest : List Char) : EndsCalls (c :: rest) :=
  fun heq => h (Option.some.inj heq)

/-- The arguments of a call are told from what follows the call. -/
theorem arguments_append_inj (hplain : ∀ e ∈ es, e.Plain)
    (hes : ∀ e ∈ es, Separates (dump scopeText) EndsCalls e) (hplain' : ∀ e ∈ es', e.Plain)
    (heq : (commaSeparated (dumps scopeText es)).toList ++ ')' :: rest =
      (commaSeparated (dumps scopeText es')).toList ++ ')' :: rest') :
    allAlike es es' = true ∧ rest = rest' := by
  cases es with
  | nil =>
      cases es' with
      | nil => exact ⟨rfl, (List.cons.inj heq).2⟩
      | cons e' es' =>
          rw [toList_arguments] at heq
          exact absurd heq.symm ((hplain' e' List.mem_cons_self).dump_append_ne _)
  | cons e es =>
      cases es' with
      | nil =>
          rw [toList_arguments] at heq
          exact absurd heq ((hplain e List.mem_cons_self).dump_append_ne _)
      | cons e' es' =>
          rw [toList_arguments, toList_arguments] at heq
          exact row_append_inj ')' [] rfl (by decide)
            (fun rest => ⟨endsCalls_cons (by decide) rest, endsCalls_cons (by decide) rest⟩)
            hes hplain' heq

theorem brackets_append_inj {calls calls' : List (List Expr × Span)}
    (hplain : ∀ entry ∈ calls, ∀ e ∈ entry.1, e.Plain)
    (hcalls : ∀ entry ∈ calls, ∀ e ∈ entry.1, Separates (dump scopeText) EndsCalls e)
    (hplain' : ∀ entry ∈ calls', ∀ e ∈ entry.1, e.Plain) (hrest : EndsCalls rest)
    (hrest' : EndsCalls rest')
    (heq : brackets scopeText calls ++ rest = brackets scopeText calls' ++ rest') :
    List.Forall₂ (fun entry entry' => allAlike entry.1 entry'.1 = true) calls calls' ∧
      rest = rest' := by
  induction calls generalizing calls' with
  | nil =>
      cases calls' with
      | nil => exact ⟨.nil, heq⟩
      | cons entry' calls' =>
          obtain rfl : rest = _ := heq
          exact absurd rfl hrest
  | cons entry calls ih =>
      cases calls' with
      | nil =>
          obtain rfl : _ = rest' := heq
          exact absurd rfl hrest'
      | cons entry' calls' =>
          simp only [brackets, List.cons_append, List.append_assoc, List.cons.injEq, true_and]
            at heq
          obtain ⟨hentry, hmore⟩ := List.forall_mem_cons.1 hplain
          obtain ⟨hentry', hmore'⟩ := List.forall_mem_cons.1 hplain'
          obtain ⟨hseparates, hcalls⟩ := List.forall_mem_cons.1 hcalls
          obtain ⟨halike, heq⟩ := arguments_append_inj hentry hseparates hentry' heq
          obtain ⟨hcalls, hrest⟩ := ih hmore hcalls hmore' heq
          exact ⟨.cons halike hcalls, hrest⟩

theorem Leaf.separates_applied (h : e.Leaf) (calls : List (List Expr × Span))
    (hplain : ∀ entry ∈ calls, ∀ e ∈ entry.1, e.Plain)
    (hcalls : ∀ entry ∈ calls, ∀ e ∈ entry.1, Separates (dump scopeText) EndsCalls e) :
    Separates (dump scopeText) EndsCalls (e.applied calls) := by
  intro e' rest rest' he' hrest hrest' heq
  obtain ⟨atom', calls', hatom', rfl, hplain'⟩ := he'.exists_applied
  simp only [toList_dump_applied, List.append_assoc] at heq
  obtain ⟨halike, heq⟩ := h.append_inj hatom' heq
  obtain ⟨hcalls, hrest⟩ := brackets_append_inj hplain hcalls hplain' hrest hrest' heq
  exact ⟨alike_applied halike hcalls, hrest⟩

/-- A tree is told from what comes next, together with all calls that are around it.  A call
    hands itself on to its operator as the innermost of the calls around that. -/
theorem Plain.separates_applied (h : e.Plain) (calls : List (List Expr × Span))
    (hplain : ∀ entry ∈ calls, ∀ e ∈ entry.1, e.Plain)
    (hcalls : ∀ entry ∈ calls, ∀ e ∈ entry.1, Separates (dump scopeText) EndsCalls e) :
    Separates (dump scopeText) EndsCalls (e.applied calls) := by
  induction h generalizing calls with
  | int n span => exact (Leaf.int n span).separates_applied calls hplain hcalls
  | string text span => exact (Leaf.string text span).separates_applied calls hplain hcalls
  | name text span => exact (Leaf.name text span).separates_applied calls hplain hcalls
  | @call operator arguments span _ harguments ih iharguments =>
      have hseparates : ∀ argument ∈ arguments,
          Separates (dump scopeText) EndsCalls argument := fun argument hmem =>
        iharguments argument hmem [] nofun nofun
      exact ih ((arguments, span) :: calls) (List.forall_mem_cons.2 ⟨harguments, hplain⟩)
        (List.forall_mem_cons.2 ⟨hseparates, hcalls⟩)

theorem Plain.separates_dump (h : e.Plain) : Separates (dump scopeText) EndsCalls e :=
  h.separates_applied [] nofun nofun

/-! ### Dumps on several lines -/

theorem Leaf.outline_eq (h : e.Leaf) (depth : Int) :
    e.outline scopeText depth = indentation depth ++ e.dump scopeText := by
  cases h <;> rfl

/-- What closes the outline of a call, behind the line feed. -/
def outlineEnd (depth : Int) : List Char :=
  (indentation depth).toList ++ [']', ')']

theorem toList_outline_call (depth : Int) (operator : Expr) (arguments : List Expr) (span : Span) :
    (outline scopeText depth (.call operator arguments span)).toList ++ rest =
      (indentation depth).toList ++ ("Application(nodes=[\n".toList ++
        ((operator.outline scopeText (depth + 1)).toList ++
          (trail (outline scopeText (depth + 1)) ",\n" arguments ++
            '\n' :: (outlineEnd depth ++ rest)))) := by
  rw [outline, outlines_eq_map, ← List.map_cons]
  simp only [String.toList_append, toList_intercalate_cons, List.append_assoc, outlineEnd]
  rfl

/-- An atom is told from a call by its first word. -/
theorem Leaf.dump_append_ne (h : e.Leaf) (chars : List Char) :
    (e.dump scopeText).toList ++ rest ≠ "Application(nodes=[\n".toList ++ chars := by
  intro heq
  cases h <;> simp only [toList_dump_int, toList_dump_string, toList_dump_name] at heq <;>
    exact absurd (List.cons.inj heq).1 (by decide)

theorem Leaf.separates_outline (h : e.Leaf) (depth : Int) :
    Separates (outline scopeText depth) (fun _ => True) e := by
  intro e' rest rest' he' _ _ heq
  rw [h.outline_eq, String.toList_append, List.append_assoc] at heq
  have hleaf : e'.Leaf → e.alike e' = true ∧ rest = rest' := by
    intro h'
    rw [h'.outline_eq, String.toList_append, List.append_assoc] at heq
    exact h.append_inj h' (List.append_cancel_left heq)
  cases he' with
  | int n span => exact hleaf (.int n span)
  | string text span => exact hleaf (.string text span)
  | name text span => exact hleaf (.name text span)
  | call span _ _ =>
      rw [toList_outline_call] at heq
      exact absurd (List.append_cancel_left heq) (h.dump_append_ne _)

theorem Plain.separates_outline (h : e.Plain) (depth : Int) :
    Separates (outline scopeText depth) (fun _ => True) e := by
  induction h generalizing depth with
  | int n span => exact (Leaf.int n span).separates_outline depth
  | string text span => exact (Leaf.string text span).separates_outline depth
  | name text span => exact (Leaf.name text span).separates_outline depth
  | @call operator arguments span _ _ ihoperator iharguments =>
      intro e' rest rest' he' _ _ heq
      rw [toList_outline_call] at heq
      have hleaf : ¬e'.Leaf := by
        intro h'
        rw [h'.outline_eq, String.toList_append, List.append_assoc] at heq
        exact absurd (List.append_cancel_left heq).symm (h'.dump_append_ne _)
      cases he' with
      | int n span => exact absurd (.int n span) hleaf
      | string text span => exact absurd (.string text span) hleaf
      | name text span => exact absurd (.name text span) hleaf
      | @call operator' arguments' span' hoperator' harguments' =>
          rw [toList_outline_call] at heq
          have hseparates : ∀ a ∈ operator :: arguments,
              Separates (outline scopeText (depth + 1)) (fun _ => True) a :=
            List.forall_mem_cons.2
              ⟨ihoperator _, fun argument hmem => iharguments argument hmem _⟩
          have hplain' : ∀ a ∈ operator' :: arguments', a.Plain :=
            List.forall_mem_cons.2 ⟨hoperator', harguments'⟩
          obtain ⟨halike, hrest⟩ := row_append_inj '\n' (outlineEnd depth) rfl (by decide)
            (fun _ => ⟨trivial, trivial⟩) hseparates hplain'
            (List.append_cancel_left (List.append_cancel_left heq))
          exact ⟨halike, hrest⟩

/-! ### Trees that are alike -/

theorem map_eq_of_allAlike {write : Expr → String}
    (hwrite : ∀ a ∈ es, ∀ {b : Expr}, b.Plain → a.alike b = true → write a = write b)
    (hes' : ∀ e ∈ es', e.Plain) (h : allAlike es es' = true) : es.map write = es'.map write := by
  induction es generalizing es' with
  | nil =>
      cases es' with
      | nil => rfl
      | cons e' es' => exact absurd h Bool.false_ne_true
  | cons e es ih =>
      cases es' with
      | nil => exact absurd h Bool.false_ne_true
      | cons e' es' =>
          obtain ⟨hwrite, hwrites⟩ := List.forall_mem_cons.1 hwrite
          obtain ⟨he', hes'⟩ := List.forall_mem_cons.1 hes'
          obtain ⟨halike, halikes⟩ := Bool.and_eq_true_iff.1 h
          rw [List.map_cons, List.map_cons, hwrite he' halike, ih hwrites hes' halikes]

/-- Trees that are compared as equal have the same dumps. -/
theorem Plain.dumps_of_alike (ha : a.Plain) (hb : b.Plain) (h : a.alike b = true) :
    a.dump scopeText = b.dump scopeText ∧
      ∀ depth, a.outline scopeText depth = b.outline scopeText depth := by
  induction ha generalizing b with
  | int n span =>
      cases hb with
      | int n' span' =>
          obtain rfl : n = n' := of_decide_eq_true ((Number.equal_ints n n').symm.trans h)
          exact ⟨rfl, fun _ => rfl⟩
      | _ => exact absurd h Bool.false_ne_true
  | string text span =>
      cases hb with
      | string text' span' =>
          obtain rfl : text = text' := eq_of_beq h
          exact ⟨rfl, fun _ => rfl⟩
      | _ => exact absurd h Bool.false_ne_true
  | name text span =>
      cases hb with
      | name text' span' =>
          obtain rfl : text = text' := eq_of_beq h
          exact ⟨rfl, fun _ => rfl⟩
      | _ => exact absurd h Bool.false_ne_true
  | @call operator arguments span _ _ ihoperator iharguments =>
      cases hb with
      | @call operator' arguments' span' hoperator' harguments' =>
          obtain ⟨hoperator, harguments⟩ := Bool.and_eq_true_iff.1 h
          obtain ⟨hdump, houtline⟩ := ihoperator hoperator' hoperator
          have hdumps : arguments.map (dump scopeText) = arguments'.map (dump scopeText) :=
            map_eq_of_allAlike (fun a hmem _ hb h => (iharguments a hmem hb h).1) harguments'
              harguments
          have houtlines : ∀ depth, arguments.map (outline scopeText depth) =
              arguments'.map (outline scopeText depth) := fun depth =>
            map_eq_of_allAlike (fun a hmem _ hb h => (iharguments a hmem hb h).2 depth) harguments'
              harguments
          simp only [dump, outline, dumps_eq_map, outlines_eq_map, hdump, houtline, hdumps,
            houtlines, implies_true, and_self]
      | _ => exact absurd h Bool.false_ne_true

/-! ### What dumps show -/

/-- Trees of integers, strings, names and calls have the same dump, and the same outline at any
    depth, exactly if they are compared as equal.  If all integers in them are short enough, the
    dumps can be written. -/
theorem dumps_faithful (scopeText : ScopeId → String) (ha : a.Plain) (hb : b.Plain)
    (hshort : a.isWritable = true) (hshort' : b.isWritable = true) :
    (a.written (a.dump scopeText) = .ok (a.dump scopeText) ∧
        b.written (b.dump scopeText) = .ok (b.dump scopeText) ∧
        (a.dump scopeText = b.dump scopeText ↔ a.alike b = true)) ∧
      ∀ depth : Int,
        a.written (a.outline scopeText depth) = .ok (a.outline scopeText depth) ∧
        b.written (b.outline scopeText depth) = .ok (b.outline scopeText depth) ∧
        (a.outline scopeText depth = b.outline scopeText depth ↔ a.alike b = true) := by
  have hwritten : ∀ {e : Expr}, e.isWritable = true → ∀ text, e.written text = .ok text :=
    fun hshort _ => if_pos hshort
  refine ⟨⟨hwritten hshort _, hwritten hshort' _, fun heq => ?_, fun h => ?_⟩, fun depth =>
    ⟨hwritten hshort _, hwritten hshort' _, fun heq => ?_, fun h => ?_⟩⟩
  · have hend : EndsCalls [] := nofun
    exact (ha.separates_dump hb hend hend (congrArg (·.toList ++ []) heq)).1
  · exact (ha.dumps_of_alike hb h).1
  · exact (ha.separates_outline depth hb trivial trivial (congrArg (·.toList ++ []) heq)).1
  · exact (ha.dumps_of_alike hb h).2 depth

/-- A name that looks like two names in a row is not shown as two names are. -/
theorem dumps_faithful_awkward_name :
    let operator := name "f" ⟨0, 1⟩
    let a := call operator [name "x'), Identifier('y" ⟨2, 21⟩] ⟨0, 22⟩
    let b := call operator [name "x" ⟨2, 3⟩, name "y" ⟨5, 6⟩] ⟨0, 7⟩
    let scopeText := fun _ : ScopeId => ""
    a.dump scopeText ≠ b.dump scopeText ∧
      a.outline scopeText 1 ≠ b.outline scopeText 1 := by
  intro operator a b scopeText
  have hoperator : operator.Plain := .name _ _
  have ha : a.Plain := .call _ hoperator (List.forall_mem_singleton.2 (.name _ _))
  have hb : b.Plain := by
    refine .call _ hoperator (List.forall_mem_cons.2 ⟨.name _ _, ?_⟩)
    exact List.forall_mem_singleton.2 (.name _ _)
  have hdiffer : ¬a.alike b = true := by decide
  obtain ⟨⟨-, -, hdump⟩, houtline⟩ := dumps_faithful scopeText ha hb rfl rfl
  exact ⟨fun heq => hdiffer (hdump.1 heq), fun heq => hdiffer ((houtline 1).2.2.1 heq)⟩

end Expr

end CallLang
