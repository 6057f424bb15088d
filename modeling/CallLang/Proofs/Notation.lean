/-
  CallLang/Proofs/Notation.lean
  =============================
  **What is shown inside arrays identifies values.**

  The notation escapes nothing: a string between quotation marks may contain commas and
  brackets.  But it never contains a quotation mark, and nothing else begins with one;
  numbers and truth values contain no commas and brackets, and an array begins and ends
  with one.  So the text of a value is told from whatever comes next, item by item, and
  values that are shown alike are equal.
-/
import CallLang.Proofs.Equality
import CallLang.Proofs.NumberTexts
import CallLang.Proofs.Quotes

namespace CallLang

/-! ### Values that can be identified -/

/-- Whether a value contains no function, no number that is none, and no integer of too many
    digits to be shown. -/
inductive Value.Data : Value → Prop where
  | number {n : Number} (hnumber : n ≠ .double .nan)
      (hshort : ∀ k : Int, n = .int k → k.natAbs < tooLong) : Value.Data (.number n)
  | string (text : String) : Value.Data (.string text)
  | boolean (b : Bool) : Value.Data (.boolean b)
  | array {items : List Value} (h : ∀ item ∈ items, item.Data) : Value.Data (.array items)

/-- Whether a value is data in which no string contains a quotation mark. -/
inductive Value.Legible : Value → Prop where
  | number {n : Number} (h : n ≠ .double .nan) : Value.Legible (.number n)
  | string {text : String} (h : '"' ∉ text.toList) : Value.Legible (.string text)
  | boolean (b : Bool) : Value.Legible (.boolean b)
  | array {items : List Value} (h : ∀ item ∈ items, item.Legible) : Value.Legible (.array items)

theorem Value.Data.legible {value : Value} (h : value.Data) (hunquoted : value.Unquoted) :
    value.Legible := by
  induction h with
  | number hnumber _ => exact .number hnumber
  | string text =>
      cases hunquoted with
      | string htext => exact .string htext
  | boolean b => exact .boolean b
  | array _ ih =>
      cases hunquoted with
      | array hitems => exact .array fun item hmem => ih item hmem (hitems item hmem)

/-! ### Rows -/

theorem mapM_eq_ok_iff {ε α β : Type} {f : α → Except ε β} {items : List α} {results : List β} :
    items.mapM f = .ok results ↔ List.Forall₂ (fun a b => f a = .ok b) items results := by
  induction items generalizing results with
  | nil =>
      rw [List.forall₂_nil_left_iff]
      exact ⟨fun h => (Except.ok.inj h).symm, fun h => h ▸ rfl⟩
  | cons a items ih =>
      rw [List.mapM_cons, List.forall₂_cons_left_iff]
      cases hfa : f a with
      | error cause =>
          constructor
          · intro h
            cases h
          · rintro ⟨b, bs, hb, -⟩
            cases hb
      | ok b =>
          cases hitems : items.mapM f with
          | error cause =>
              constructor
              · intro h
                cases h
              · rintro ⟨b', bs, -, hbs, -⟩
                rw [ih.2 hbs] at hitems
                cases hitems
          | ok bs =>
              constructor
              · intro h
                exact ⟨b, bs, rfl, ih.1 hitems, (Except.ok.inj h).symm⟩
              · rintro ⟨b', bs', hb, hbs, rfl⟩
                rw [ih.2 hbs] at hitems
                obtain rfl := Except.ok.inj hitems
                obtain rfl := Except.ok.inj hb
                rfl

/-- What follows the first text of a row. -/
def rowTail : List String → List Char
  | [] => []
  | text :: texts => ',' :: ' ' :: (text.toList ++ rowTail texts)

theorem toList_commaSeparated (text : String) (texts : List String) :
    (commaSeparated (text :: texts)).toList = text.toList ++ rowTail texts := by
  unfold commaSeparated
  induction texts generalizing text with
  | nil => rw [String.intercalate_singleton, rowTail, List.append_nil]
  | cons next texts ih =>
      rw [String.intercalate_cons_cons, String.toList_append, ih, rowTail, String.toList_append,
        List.append_assoc]
      rfl

/-- Whether a text begins as what can follow an item of an array, if it is not empty. -/
def EndsItem (rest : List Char) : Prop :=
  ∀ c, rest.head? = some c → c = ',' ∨ c = ']'

theorem endsItem_rowTail (texts : List String) (rest : List Char) :
    EndsItem (rowTail texts ++ ']' :: rest) := by
  intro c hc
  cases texts with
  | nil => exact .inr (Option.some.inj hc).symm
  | cons text texts => exact .inl (Option.some.inj hc).symm

theorem Value.display_array_eq_ok {limit : Nat} {nested : Bool} {items : List Value}
    {text : String} :
    (Value.array items).display (limit + 1) nested = .ok text ↔
      ∃ texts, List.Forall₂ (fun item text => item.display limit true = .ok text) items texts ∧
        "[" ++ commaSeparated texts ++ "]" = text := by
  simp only [display, ← mapM_eq_ok_iff]
  cases items.mapM (display limit true) with
  | error cause =>
      constructor
      · intro h
        cases h
      · rintro ⟨texts, h, -⟩
        cases h
  | ok texts =>
      constructor
      · intro h
        exact ⟨texts, rfl, Except.ok.inj h⟩
      · rintro ⟨texts', h, rfl⟩
        obtain rfl := Except.ok.inj h
        rfl

/-! ### Beginnings -/

/-- The kind of value that a text inside an array stands for, by its first character. -/
def Kind.ofFirst (c : Char) : Kind :=
  if c = '"' then .string
  else if c = '[' then .array
  else if c = 't' ∨ c = 'f' then .boolean
  else .number

theorem Kind.ofFirst_of_number {c : Char} (h : c.isDigit = true ∨ c = '-' ∨ c = 'i') :
    Kind.ofFirst c = .number ∧ c ≠ ']' := by
  have hother : ∀ d : Char, ¬(d.isDigit = true ∨ d = '-' ∨ d = 'i') → c ≠ d :=
    fun d hd heq => hd (heq ▸ h)
  have hquote : c ≠ '"' := hother '"' (by decide)
  have hbracket : c ≠ '[' := hother '[' (by decide)
  have hword : ¬(c = 't' ∨ c = 'f') := not_or.2 ⟨hother 't' (by decide), hother 'f' (by decide)⟩
  refine ⟨?_, hother ']' (by decide)⟩
  rw [ofFirst, if_neg hquote, if_neg hbracket, if_neg hword]

/-- Whether a character goes on with the text of a number or a truth value. -/
def isBare (c : Char) : Bool :=
  c != ',' && c != ']'

theorem EndsItem.not_isBare {rest : List Char} (h : EndsItem rest) :
    ∀ c, rest.head? = some c → isBare c = false := by
  intro c hc
  rcases h c hc with rfl | rfl <;> rfl

theorem isBare_of_notes {c : Char} (h : Double.Notes c ∨ c ∈ ['i', 'n', 'f']) :
    isBare c = true := by
  have hother : ∀ d : Char, ¬(Double.Notes d ∨ d ∈ ['i', 'n', 'f']) → c ≠ d :=
    fun d hd heq => hd (heq ▸ h)
  have hcomma : c ≠ ',' := hother ',' (by decide)
  have hbracket : c ≠ ']' := hother ']' (by decide)
  simp [isBare, hcomma, hbracket]

namespace Value

variable {value other : Value} {text text' : String} {limit : Nat} {rest rest' : List Char}

/-- The text of a value inside an array tells its kind at once. -/
theorem Legible.first (h : value.Legible) (htext : value.display limit true = .ok text) :
    ∃ c rest, text.toList = c :: rest ∧ Kind.ofFirst c = value.kind ∧ c ≠ ']' := by
  cases limit with
  | zero => cases htext
  | succ limit =>
      cases h with
      | number hnumber =>
          obtain ⟨c, rest, hcons, hfirst⟩ := (Number.shown_of_display hnumber htext).first
          exact ⟨c, rest, hcons, Kind.ofFirst_of_number hfirst⟩
      | string hquotes =>
          cases htext
          exact ⟨'"', _, by simp; rfl, rfl, by decide⟩
      | boolean b =>
          cases htext
          cases b
          · exact ⟨'f', _, rfl, rfl, by decide⟩
          · exact ⟨'t', _, rfl, rfl, by decide⟩
      | @array items _ =>
          obtain ⟨texts, -, rfl⟩ := display_array_eq_ok.1 htext
          exact ⟨'[', _, by simp; rfl, rfl, by decide⟩

theorem kind_eq_of_append (h : value.Legible) (h' : other.Legible)
    (htext : value.display limit true = .ok text) (htext' : other.display limit true = .ok text')
    (heq : text.toList ++ rest = text'.toList ++ rest') : value.kind = other.kind := by
  obtain ⟨c, tail, hcons, hkind, -⟩ := h.first htext
  obtain ⟨c', tail', hcons', hkind', -⟩ := h'.first htext'
  rw [hcons, hcons', List.cons_append, List.cons_append] at heq
  rw [← hkind, ← hkind', (List.cons.inj heq).1]

/-- Whether values that are shown within a limit are equal if the texts cannot be told apart with
    what follows them. -/
def Readable (limit : Nat) : Prop :=
  ∀ {value other : Value} {text text' : String} {rest rest' : List Char},
    value.Legible → other.Legible → value.display limit true = .ok text →
    other.display limit true = .ok text' → EndsItem rest → EndsItem rest' →
    text.toList ++ rest = text'.toList ++ rest' → value.equal limit other = .ok true ∧ rest = rest'

/-- The items of two arrays, behind the first ones. -/
theorem equal_of_rowTail (hread : Readable limit) {items items' : List Value}
    {texts texts' : List String} (hitems : ∀ item ∈ items, item.Legible)
    (hitems' : ∀ item ∈ items', item.Legible)
    (htexts : List.Forall₂ (fun item text => item.display limit true = .ok text) items texts)
    (htexts' : List.Forall₂ (fun item text => item.display limit true = .ok text) items' texts')
    (heq : rowTail texts ++ ']' :: rest = rowTail texts' ++ ']' :: rest') :
    items.length = items'.length ∧ allEqual (equal limit) items items' = .ok true ∧
      rest = rest' := by
  induction htexts generalizing items' texts' with
  | nil =>
      cases htexts' with
      | nil => exact ⟨rfl, rfl, (List.cons.inj heq).2⟩
      | cons _ _ => cases (List.cons.inj heq).1
  | @cons item text items texts htext _ ih =>
      cases htexts' with
      | nil => cases (List.cons.inj heq).1
      | @cons item' text' items' texts' htext' hrest' =>
          simp only [rowTail, List.cons_append, List.append_assoc, List.cons.injEq, true_and] at heq
          obtain ⟨hitem, hitems⟩ := List.forall_mem_cons.1 hitems
          obtain ⟨hitem', hitems'⟩ := List.forall_mem_cons.1 hitems'
          obtain ⟨hequal, htail⟩ := hread hitem hitem' htext htext' (endsItem_rowTail _ _)
            (endsItem_rowTail _ _) heq
          obtain ⟨hlength, hall, hrest⟩ := ih hitems hitems' hrest' htail
          refine ⟨by rw [List.length_cons, List.length_cons, hlength], ?_, hrest⟩
          rw [allEqual, hequal]
          exact hall

theorem equal_of_row (hread : Readable limit) {items items' : List Value}
    {texts texts' : List String} (hitems : ∀ item ∈ items, item.Legible)
    (hitems' : ∀ item ∈ items', item.Legible)
    (htexts : List.Forall₂ (fun item text => item.display limit true = .ok text) items texts)
    (htexts' : List.Forall₂ (fun item text => item.display limit true = .ok text) items' texts')
    (heq : (commaSeparated texts).toList ++ ']' :: rest =
      (commaSeparated texts').toList ++ ']' :: rest') :
    items.length = items'.length ∧ allEqual (equal limit) items items' = .ok true ∧
      rest = rest' := by
  -- no item begins with the closing bracket
  have hempty : ∀ {item : Value} {text : String} {texts : List String} {rest rest' : List Char},
      item.Legible → item.display limit true = .ok text →
      (commaSeparated []).toList ++ ']' :: rest ≠
        (commaSeparated (text :: texts)).toList ++ ']' :: rest' := by
    intro item text texts rest rest' hitem htext heq
    obtain ⟨c, tail, hcons, -, hclosing⟩ := hitem.first htext
    rw [toList_commaSeparated, hcons] at heq
    exact hclosing (List.cons.inj heq).1.symm
  cases htexts with
  | nil =>
      cases htexts' with
      | nil => exact ⟨rfl, rfl, (List.cons.inj heq).2⟩
      | cons htext' _ => exact absurd heq (hempty (hitems' _ List.mem_cons_self) htext')
  | @cons item text items texts htext hrest =>
      cases htexts' with
      | nil => exact absurd heq.symm (hempty (hitems _ List.mem_cons_self) htext)
      | @cons item' text' items' texts' htext' hrest' =>
          refine equal_of_rowTail hread hitems hitems' (.cons htext hrest) (.cons htext' hrest') ?_
          rw [rowTail, rowTail, ← toList_commaSeparated, ← toList_commaSeparated]
          exact congrArg (fun chars => ',' :: ' ' :: chars) heq

/-- Values that are shown alike are equal, and what follows their texts is the same. -/
theorem readable (limit : Nat) : Readable limit := by
  induction limit with
  | zero =>
      intro value other text text' rest rest' _ _ htext
      cases htext
  | succ limit ih =>
      intro value other text text' rest rest' h h' htext htext' hrest hrest' heq
      have hkind := kind_eq_of_append h h' htext htext' heq
      cases h with
      | @number n hn =>
          cases h' with
          | @number m hm =>
              have hshown := Number.shown_of_display hn htext
              have hshown' := Number.shown_of_display hm htext'
              obtain ⟨hchars, htail⟩ := Grammar.append_inj_of_stop
                (fun c hc => isBare_of_notes (hshown.notes c hc))
                (fun c hc => isBare_of_notes (hshown'.notes c hc)) hrest.not_isBare
                hrest'.not_isBare heq
              have hequal := (hshown.text_eq_iff hshown').1 (String.toList_inj.1 hchars)
              exact ⟨congrArg Except.ok hequal, htail⟩
          | _ => cases hkind
      | @string contents hcontents =>
          cases h' with
          | @string contents' hcontents' =>
              cases htext
              cases htext'
              simp only [if_true, String.toList_append] at heq
              obtain ⟨hchars, htail⟩ := Grammar.Atom.text_append_inj hcontents hcontents' heq
              obtain rfl := String.toList_inj.1 hchars
              exact ⟨congrArg Except.ok (beq_self_eq_true contents), htail⟩
          | _ => cases hkind
      | boolean b =>
          cases h' with
          | boolean b' =>
              cases htext
              cases htext'
              cases b <;> cases b'
              · exact ⟨rfl, List.append_cancel_left heq⟩
              · cases (List.cons.inj heq).1
              · cases (List.cons.inj heq).1
              · exact ⟨rfl, List.append_cancel_left heq⟩
          | _ => cases hkind
      | @array items hitems =>
          cases h' with
          | @array items' hitems' =>
              obtain ⟨texts, htexts, rfl⟩ := display_array_eq_ok.1 htext
              obtain ⟨texts', htexts', rfl⟩ := display_array_eq_ok.1 htext'
              simp only [String.toList_append, List.append_assoc] at heq
              obtain ⟨hlength, hall, htail⟩ := equal_of_row (@ih) hitems hitems' htexts htexts'
                (List.cons.inj heq).2
              refine ⟨?_, htail⟩
              rw [equal, if_pos hlength]
              exact hall
          | _ => cases hkind

/-! ### Equal values -/

/-- Arrays of equal items are shown alike if equal items are. -/
theorem texts_eq_of_allEqual
    (hsame : ∀ {value other : Value} {text text' : String}, value.Legible → other.Legible →
      value.display limit true = .ok text → other.display limit true = .ok text' →
      value.equal limit other = .ok true → text = text')
    {items items' : List Value} {texts texts' : List String} (hitems : ∀ item ∈ items, item.Legible)
    (hitems' : ∀ item ∈ items', item.Legible)
    (htexts : List.Forall₂ (fun item text => item.display limit true = .ok text) items texts)
    (htexts' : List.Forall₂ (fun item text => item.display limit true = .ok text) items' texts')
    (hlength : items.length = items'.length)
    (hall : allEqual (equal limit) items items' = .ok true) : texts = texts' := by
  induction htexts generalizing items' texts' with
  | nil =>
      cases htexts' with
      | nil => rfl
      | cons _ _ => cases hlength
  | @cons item text items texts hitem _ ih =>
      cases htexts' with
      | nil => cases hlength
      | @cons item' text' items' texts' hitem' hrest' =>
          obtain ⟨hequal, hrest⟩ := allEqual_cons_iff.1 hall
          obtain ⟨hlegible, hitems⟩ := List.forall_mem_cons.1 hitems
          obtain ⟨hlegible', hitems'⟩ := List.forall_mem_cons.1 hitems'
          have htext := hsame hlegible hlegible' hitem hitem' hequal
          have htexts := ih hitems hitems' hrest' (Nat.succ.inj hlength) hrest
          rw [htext, htexts]

/-- Equal values are shown alike. -/
theorem text_eq_of_equal {limit : Nat} {value other : Value} {text text' : String}
    (h : value.Legible) (h' : other.Legible) (htext : value.display limit true = .ok text)
    (htext' : other.display limit true = .ok text') (hequal : value.equal limit other = .ok true) :
    text = text' := by
  induction limit generalizing value other text text' with
  | zero => cases htext
  | succ limit ih =>
      cases h with
      | @number n hn =>
          cases h' with
          | @number m hm =>
              have hshown := Number.shown_of_display hn htext
              have hshown' := Number.shown_of_display hm htext'
              exact (hshown.text_eq_iff hshown').2 (Except.ok.inj hequal)
          | _ => cases hequal
      | @string contents _ =>
          cases h' with
          | @string contents' _ =>
              obtain rfl : contents = contents' := eq_of_beq (Except.ok.inj hequal)
              exact Except.ok.inj (htext.symm.trans htext')
          | _ => cases hequal
      | boolean b =>
          cases h' with
          | boolean b' =>
              obtain rfl : b = b' := eq_of_beq (Except.ok.inj hequal)
              exact Except.ok.inj (htext.symm.trans htext')
          | _ => cases hequal
      | @array items hitems =>
          cases h' with
          | @array items' hitems' =>
              obtain ⟨texts, htexts, rfl⟩ := display_array_eq_ok.1 htext
              obtain ⟨texts', htexts', rfl⟩ := display_array_eq_ok.1 htext'
              rw [equal] at hequal
              split at hequal
              · next hlength =>
                  rw [texts_eq_of_allEqual (@ih) hitems hitems' htexts htexts' hlength hequal]
              · cases hequal
          | _ => cases hequal

/-- What can be shown is not nested deeper than the limit. -/
theorem nesting_le_of_display {limit : Nat} {nested : Bool} {value : Value} {text : String}
    (htext : value.display limit nested = .ok text) : value.nesting ≤ limit := by
  induction limit generalizing nested value text with
  | zero => cases htext
  | succ limit ih =>
      cases value with
      | array items =>
          obtain ⟨texts, htexts, -⟩ := display_array_eq_ok.1 htext
          have hitems := ok_of_mapM_ok (mapM_eq_ok_iff.2 htexts)
          refine Nat.succ_le_succ (nestingAll_le_iff.2 fun item hmem => ?_)
          obtain ⟨text, hitem⟩ := hitems item hmem
          exact ih hitem
      | _ => exact Nat.succ_le_succ (Nat.zero_le limit)

/-- Within a limit that lets both be shown, legible values have one text exactly if they are
    equal. -/
theorem equal_eq_decide {limit : Nat} {value other : Value} {text text' : String}
    (h : value.Legible) (h' : other.Legible) (htext : value.display limit true = .ok text)
    (htext' : other.display limit true = .ok text') :
    value.equal limit other = .ok (decide (text = text')) := by
  by_cases heq : text = text'
  · have hend : EndsItem [] := by rintro c ⟨⟩
    rw [decide_eq_true heq]
    exact (readable limit h h' htext htext' hend hend (by rw [heq])).1
  · obtain ⟨answer, hanswer⟩ := exists_equal_of_nesting (nesting_le_of_display htext) other
    rw [hanswer, decide_eq_false heq]
    cases answer with
    | false => rfl
    | true => exact absurd (text_eq_of_equal h h' htext htext' hanswer) heq

/-! ### Limits -/

theorem exists_bound_all {p : Value → Nat → Prop} {items : List Value}
    (h : ∀ item ∈ items, ∃ bound, ∀ limit, bound ≤ limit → p item limit) :
    ∃ bound, ∀ limit, bound ≤ limit → ∀ item ∈ items, p item limit := by
  induction items with
  | nil => exact ⟨0, fun _ _ item hmem => absurd hmem List.not_mem_nil⟩
  | cons item items ih =>
      obtain ⟨bound, hitem⟩ := h item List.mem_cons_self
      obtain ⟨bound', hitems⟩ := ih fun other hmem => h other (List.mem_cons_of_mem _ hmem)
      refine ⟨max bound bound', fun limit hlimit other hmem => ?_⟩
      rcases List.mem_cons.1 hmem with rfl | hmem
      · exact hitem limit (le_of_max_le_left hlimit)
      · exact hitems limit (le_of_max_le_right hlimit) other hmem

theorem exists_mapM_ok {ε α β : Type} {f : α → Except ε β} {items : List α}
    (h : ∀ a ∈ items, ∃ b, f a = .ok b) : ∃ results, items.mapM f = .ok results := by
  cases hresult : items.mapM f with
  | ok results => exact ⟨results, rfl⟩
  | error cause =>
      obtain ⟨a, hmem, hfa⟩ := exists_of_mapM_error hresult
      obtain ⟨b, hb⟩ := h a hmem
      rw [hb] at hfa
      cases hfa

theorem exists_bound_of_succ {value : Value} (bound : Nat)
    (h : ∀ limit, bound ≤ limit → ∃ text, value.display (limit + 1) true = .ok text) :
    ∃ bound, ∀ limit, bound ≤ limit → ∃ text, value.display limit true = .ok text := by
  refine ⟨bound + 1, fun limit hlimit => ?_⟩
  cases limit with
  | zero => exact absurd hlimit (Nat.not_succ_le_zero bound)
  | succ limit => exact h limit (Nat.le_of_succ_le_succ hlimit)

/-- Data can be shown within some limit and all beyond. -/
theorem Data.exists_display {value : Value} (h : value.Data) :
    ∃ bound, ∀ limit, bound ≤ limit → ∃ text, value.display limit true = .ok text := by
  induction h with
  | @number n hnumber hshort =>
      refine exists_bound_of_succ 0 fun limit _ => ?_
      cases hdisplay : n.display with
      | ok text => exact ⟨text, hdisplay⟩
      | error cause =>
          obtain ⟨hlong, -⟩ := Number.display_eq_error.1 hdisplay
          cases hlong with
          | @int k hlong => exact absurd (hshort k rfl) (Nat.not_lt.2 hlong)
  | string text => exact exists_bound_of_succ 0 fun _ _ => ⟨_, rfl⟩
  | boolean b => exact exists_bound_of_succ 0 fun _ _ => ⟨_, rfl⟩
  | @array items _ ih =>
      obtain ⟨bound, hitems⟩ := exists_bound_all ih
      refine exists_bound_of_succ bound fun limit hlimit => ?_
      obtain ⟨texts, htexts⟩ := exists_mapM_ok (hitems limit hlimit)
      exact ⟨_, display_array_eq_ok.2 ⟨texts, mapM_eq_ok_iff.1 htexts, rfl⟩⟩

end Value

/-- No string that a program ever computes contains a quotation mark.  Hence what is shown inside
    arrays identifies what programs compute, as far as it contains no function, no number that is
    none and no integer of too many digits: within any limit that lets two values be shown they
    are equal exactly if their texts are, and they are shown within all limits from some on. -/
theorem Value.texts_identify :
    (∀ source text, (Value.string text).ComputedBy source → '"' ∉ text.toList) ∧
      ∀ (source source' : String) (value other : Value), value.ComputedBy source →
        other.ComputedBy source' → value.Data → other.Data →
        (∀ limit text text', value.display limit true = .ok text →
          other.display limit true = .ok text' →
          value.equal limit other = .ok (decide (text = text'))) ∧
        ∃ bound, ∀ limit, bound ≤ limit → ∃ text text', value.display limit true = .ok text ∧
          other.display limit true = .ok text' := by
  refine ⟨fun source text h => ?_, fun source source' value other h h' hdata hdata' => ⟨?_, ?_⟩⟩
  · cases h.unquoted with
    | string htext => exact htext
  · intro limit text text' htext htext'
    exact equal_eq_decide (hdata.legible h.unquoted) (hdata'.legible h'.unquoted) htext htext'
  · obtain ⟨bound, hshown⟩ := hdata.exists_display
    obtain ⟨bound', hshown'⟩ := hdata'.exists_display
    refine ⟨max bound bound', fun limit hlimit => ?_⟩
    obtain ⟨text, htext⟩ := hshown limit (le_of_max_le_left hlimit)
    obtain ⟨text', htext'⟩ := hshown' limit (le_of_max_le_right hlimit)
    exact ⟨text, text', htext, htext'⟩

/-- Commas and brackets in strings do not mislead. -/
theorem Value.texts_identify_commas :
    let value : Value := .array [.string "a, b", .array []]
    let other : Value := .array [.string "a", .string "b, []"]
    value.ComputedBy "array(\"a, b\", array())" ∧ other.ComputedBy "array(\"a\", \"b, []\")" ∧
      '"' ∉ "b, []".toList ∧ value.display 3 true = .ok "[\"a, b\", []]" ∧
      other.display 3 true = .ok "[\"a\", \"b, []\"]" ∧ value.equal 3 other = .ok false := by
  intro value other
  have hvalue : value.ComputedBy "array(\"a, b\", array())" :=
    Value.computedBy_of_run ⟨9, 0⟩ (by cbv)
  have hother : other.ComputedBy "array(\"a\", \"b, []\")" :=
    Value.computedBy_of_run ⟨9, 0⟩ (by cbv)
  have hdata : value.Data := by
    refine .array fun item hmem => ?_
    rcases List.mem_pair.1 hmem with rfl | rfl
    · exact .string _
    · exact .array fun item hnone => absurd hnone List.not_mem_nil
  have hdata' : other.Data := by
    refine .array fun item hmem => ?_
    rcases List.mem_pair.1 hmem with rfl | rfl <;> exact .string _
  have htext : value.display 3 true = .ok "[\"a, b\", []]" := by
    simp only [value]
    cbv
  have htext' : other.display 3 true = .ok "[\"a\", \"b, []\"]" := by
    simp only [other]
    cbv
  obtain ⟨hquotes, hequal⟩ := Value.texts_identify
  have hitem : (Value.string "b, []").ComputedBy "\"b, []\"" :=
    Value.computedBy_of_run ⟨9, 0⟩ (by cbv)
  have hanswer := (hequal _ _ value other hvalue hother hdata hdata').1 3 _ _ htext htext'
  exact ⟨hvalue, hother, hquotes _ _ hitem, htext, htext', hanswer⟩

end CallLang
