/-
  CallLang/Proofs/Equality.lean
  =============================
  **Equality of values is an equivalence as far as numbers allow.**

  Comparing two values gives one answer in either order, and two values that equal a
  third are equal.  A value is equal to itself unless it is or contains the number that
  is none.  Numbers are compared by their exact values, so nothing is lost where
  integers and doubles are mixed.  A limit decides only whether there is an answer: within
  a limit that its nesting keeps to, a value can be compared with every other.
-/
import CallLang.Proofs.Display
import CallLang.Proofs.NumberLine

namespace CallLang

namespace Value

/-- Whether two values are found equal, whatever the limit. -/
def Equal (a b : Value) : Prop :=
  ∃ limit, a.equal limit b = .ok true

/-- Whether a value is the number that is none, or contains it through arrays. -/
inductive HasNan : Value → Prop where
  | nan : HasNan (.double .nan)
  | array {items : List Value} {item : Value} (hmem : item ∈ items) (h : item.HasNan) :
      HasNan (.array items)

mutual

/-- How deep a value is nested: one, and one more for every array around. -/
def nesting : Value → Nat
  | .array items => nestingAll items + 1
  | _ => 1

def nestingAll : List Value → Nat
  | [] => 0
  | item :: items => max item.nesting (nestingAll items)

end

theorem nestingAll_le_iff {items : List Value} {limit : Nat} :
    nestingAll items ≤ limit ↔ ∀ item ∈ items, item.nesting ≤ limit := by
  induction items with
  | nil => simp [nestingAll]
  | cons item items ih => simp [nestingAll, ih]

theorem nesting_pos (value : Value) : 0 < value.nesting := by
  cases value <;> simp [nesting]

/-! ### Rows -/

section Rows

variable {equal : Value → Value → Except Breakdown Bool} {as bs : List Value}

theorem allEqual_comm (h : ∀ a b, equal a b = equal b a) (as bs : List Value) :
    allEqual equal as bs = allEqual equal bs as := by
  induction as generalizing bs with
  | nil => cases bs <;> rfl
  | cons a as ih =>
      cases bs with
      | nil => rfl
      | cons b bs => simp only [allEqual, h a b, ih bs]

theorem allEqual_cons_iff {a b : Value} :
    allEqual equal (a :: as) (b :: bs) = .ok true ↔
      equal a b = .ok true ∧ allEqual equal as bs = .ok true := by
  rw [allEqual]
  constructor
  · intro h
    split at h
    · next hequal => exact ⟨hequal, h⟩
    · next hnot => exact absurd h hnot
  · rintro ⟨hequal, hall⟩
    rw [hequal]
    exact hall

theorem allEqual_eq_true_iff (hlength : as.length = bs.length) :
    allEqual equal as bs = .ok true ↔ List.Forall₂ (fun a b => equal a b = .ok true) as bs := by
  induction as generalizing bs with
  | nil =>
      obtain rfl := List.length_eq_zero_iff.1 hlength.symm
      exact iff_of_true rfl .nil
  | cons a as ih =>
      cases bs with
      | nil => cases hlength
      | cons b bs => rw [allEqual_cons_iff, List.forall₂_cons, ih (Nat.succ.inj hlength)]

theorem allEqual_of_ended {items : List Value}
    (h : ∀ item ∈ items, ∀ other, ∃ answer, equal item other = .ok answer) (others : List Value) :
    ∃ answer, allEqual equal items others = .ok answer := by
  induction items generalizing others with
  | nil => cases others <;> exact ⟨true, rfl⟩
  | cons item items ih =>
      cases others with
      | nil => exact ⟨true, rfl⟩
      | cons other others =>
          obtain ⟨answer, hanswer⟩ := h item List.mem_cons_self other
          rw [allEqual, hanswer]
          cases answer with
          | false => exact ⟨false, rfl⟩
          | true => exact ih (fun item hmem => h item (List.mem_cons_of_mem _ hmem)) others

end Rows

/-! ### Within a limit -/

variable {limit : Nat} {a b c : Value}

theorem equal_comm (limit : Nat) (a b : Value) : a.equal limit b = b.equal limit a := by
  induction limit generalizing a b with
  | zero => rfl
  | succ limit ih =>
      cases a with
      | number m =>
          cases b with
          | number n =>
              have hcomm : m.equal n = n.equal m := by
                rw [Bool.eq_iff_iff, Number.equal_iff, Number.equal_iff]
                simp only [and_comm]
              rw [equal, equal, hcomm]
          | _ => rfl
      | string s =>
          cases b with
          | string t => rw [equal, equal, BEq.comm]
          | _ => rfl
      | boolean p =>
          cases b with
          | boolean q => rw [equal, equal, BEq.comm]
          | _ => rfl
      | array as =>
          cases b with
          | array bs => simp only [equal, eq_comm, allEqual_comm ih as bs]
          | _ => rfl
      | closure i _ _ _ =>
          cases b with
          | closure j _ _ _ => rw [equal, equal, BEq.comm]
          | _ => rfl
      | builtin f g =>
          cases b with
          | builtin h i => rw [equal, equal, BEq.comm, BEq.comm (a := g)]
          | _ => rfl

/-- How two values can be equal where their items are compared within a limit. -/
inductive Agrees (limit : Nat) : Value → Value → Prop where
  | number {m n : Number} (h : m.equal n = true) : Agrees limit (.number m) (.number n)
  | string (text : String) : Agrees limit (.string text) (.string text)
  | boolean (b : Bool) : Agrees limit (.boolean b) (.boolean b)
  | array {as bs : List Value} (h : List.Forall₂ (fun a b => a.equal limit b = .ok true) as bs) :
      Agrees limit (.array as) (.array bs)
  | closure (id : Nat) (parameters parameters' : List String) (body body' : Expr)
      (scope scope' : ScopeId) :
      Agrees limit (.closure id parameters body scope) (.closure id parameters' body' scope')
  | builtin (function : Builtin) (home : ScopeId) :
      Agrees limit (.builtin function home) (.builtin function home)

theorem agrees_of_equal (h : a.equal (limit + 1) b = .ok true) : Agrees limit a b := by
  cases a with
  | number m =>
      cases b with
      | number n => exact .number (Except.ok.inj h)
      | _ => cases h
  | string s =>
      cases b with
      | string t =>
          obtain rfl : s = t := eq_of_beq (Except.ok.inj h)
          exact .string s
      | _ => cases h
  | boolean p =>
      cases b with
      | boolean q =>
          obtain rfl : p = q := eq_of_beq (Except.ok.inj h)
          exact .boolean p
      | _ => cases h
  | array as =>
      cases b with
      | array bs =>
          rw [equal] at h
          split at h
          · next hlength => exact .array ((allEqual_eq_true_iff hlength).1 h)
          · cases h
      | _ => cases h
  | closure i parameters body scope =>
      cases b with
      | closure j parameters' body' scope' =>
          obtain rfl : i = j := eq_of_beq (Except.ok.inj h)
          exact .closure i _ _ _ _ _ _
      | _ => cases h
  | builtin f g =>
      cases b with
      | builtin f' g' =>
          have hsame : f == f' && g == g' := Except.ok.inj h
          obtain ⟨hf, hg⟩ := Bool.and_eq_true_iff.1 hsame
          obtain rfl := eq_of_beq hf
          obtain rfl := eq_of_beq hg
          exact .builtin f g
      | _ => cases h

theorem Agrees.equal (h : Agrees limit a b) : a.equal (limit + 1) b = .ok true := by
  cases h with
  | number h => exact congrArg Except.ok h
  | array h => rw [Value.equal, if_pos h.length_eq, allEqual_eq_true_iff h.length_eq]; exact h
  | _ => simp [Value.equal]

theorem agrees_iff : a.equal (limit + 1) b = .ok true ↔ Agrees limit a b :=
  ⟨agrees_of_equal, Agrees.equal⟩

theorem kind_eq_of_equal (h : a.equal limit b = .ok true) : a.kind = b.kind := by
  cases limit with
  | zero => cases h
  | succ limit => cases agrees_of_equal h <;> rfl

theorem equal_trans (hab : a.equal limit b = .ok true) (hbc : b.equal limit c = .ok true) :
    a.equal limit c = .ok true := by
  induction limit generalizing a b c with
  | zero => cases hab
  | succ limit ih =>
      rw [agrees_iff] at hab hbc ⊢
      cases hab with
      | number hm =>
          cases hbc with
          | number hn =>
              obtain ⟨place, hm, hplace⟩ := Number.equal_iff_value?.1 hm
              obtain ⟨place', hplace', hn⟩ := Number.equal_iff_value?.1 hn
              obtain rfl := Option.some.inj (hplace.symm.trans hplace')
              exact .number (Number.equal_iff_value?.2 ⟨place, hm, hn⟩)
      | array has =>
          cases hbc with
          | @array bs cs hbs =>
              refine .array ?_
              -- along the two rows; the limit's hypothesis serves for the items
              induction has generalizing cs with
              | nil =>
                  cases hbs with
                  | nil => exact .nil
              | cons ha _ iharray =>
                  cases hbs with
                  | cons hb hbs => exact .cons (ih ha hb) (iharray hbs)
      | closure id =>
          cases hbc with
          | closure => exact .closure id _ _ _ _ _ _
      | _ => exact hbc

/-- A value that is not nested deeper than the limit can be compared with every other. -/
theorem exists_equal_of_nesting (h : a.nesting ≤ limit) (b : Value) :
    ∃ answer, a.equal limit b = .ok answer := by
  induction limit generalizing a b with
  | zero => exact absurd (nesting_pos a) (Nat.not_lt.2 h)
  | succ limit ih =>
      cases a with
      | array as =>
          have hitems := nestingAll_le_iff.1 (Nat.le_of_succ_le_succ h)
          cases b with
          | array bs =>
              rw [equal]
              split
              · exact allEqual_of_ended (fun item hmem => ih (hitems item hmem)) bs
              · exact ⟨false, rfl⟩
          | _ => exact ⟨false, rfl⟩
      | _ => cases b <;> exact ⟨_, rfl⟩

theorem equal_self (h : a.nesting ≤ limit) (hnan : ¬a.HasNan) : a.equal limit a = .ok true := by
  induction limit generalizing a with
  | zero => exact absurd (nesting_pos a) (Nat.not_lt.2 h)
  | succ limit ih =>
      refine Agrees.equal ?_
      cases a with
      | number n =>
          have hvalue : n.value? ≠ none := by
            rw [ne_eq, Number.value?_eq_none_iff]
            rintro rfl
            exact hnan .nan
          obtain ⟨place, hplace⟩ := Option.ne_none_iff_exists'.1 hvalue
          exact .number (Number.equal_iff_value?.2 ⟨place, hplace, hplace⟩)
      | string text => exact .string text
      | boolean b => exact .boolean b
      | array items =>
          have hitems := nestingAll_le_iff.1 (Nat.le_of_succ_le_succ h)
          refine .array (List.forall₂_same.2 fun item hmem => ?_)
          exact ih (hitems item hmem) fun hitem => hnan (.array hmem hitem)
      | closure id parameters body scope => exact .closure id _ _ _ _ _ _
      | builtin function home => exact .builtin function home

/-- What is or contains the number that is none equals nothing. -/
theorem HasNan.not_equal (h : a.HasNan) (limit : Nat) (b : Value) :
    a.equal limit b ≠ .ok true := by
  induction h generalizing limit b with
  | nan =>
      intro hequal
      cases limit with
      | zero => cases hequal
      | succ limit =>
          cases agrees_of_equal hequal with
          | number h =>
              obtain ⟨place, hplace, -⟩ := Number.equal_iff_value?.1 h
              cases hplace
  | @array items item hmem _ ih =>
      intro hequal
      cases limit with
      | zero => cases hequal
      | succ limit =>
          cases agrees_of_equal hequal with
          | @array _ bs hitems =>
              have hnone : ∀ item' ∈ items, ∃ other, item'.equal limit other = .ok true :=
                ((List.forall₂_and_left items bs).1 (hitems.imp fun _ b h => ⟨⟨b, h⟩, h⟩)).1
              obtain ⟨other, hother⟩ := hnone item hmem
              exact ih limit other hother

/-! ### Whatever the limit -/

/-- Where there is an answer, the limit makes no difference to it. -/
theorem answer_iff {answer : Bool} (h : a.equal limit b = .ok answer) :
    answer = true ↔ a.Equal b := by
  constructor
  · rintro rfl
    exact ⟨limit, h⟩
  · rintro ⟨limit', h'⟩
    have hle := equal_of_le (Nat.le_max_left limit limit') (a := a) (b := b) (by rw [h]; nofun)
    have hle' := equal_of_le (Nat.le_max_right limit limit') (a := a) (b := b) (by rw [h']; nofun)
    exact Except.ok.inj (h.symm.trans (hle.symm.trans (hle'.trans h')))

theorem Equal.within (h : a.Equal b) (hlimit : a.nesting ≤ limit) : a.equal limit b = .ok true := by
  obtain ⟨answer, hanswer⟩ := exists_equal_of_nesting hlimit b
  rw [hanswer, (answer_iff hanswer).2 h]

theorem Equal.trans (hab : a.Equal b) (hbc : b.Equal c) : a.Equal c := by
  have hnesting := Nat.le_max_left a.nesting b.nesting
  have hnesting' := Nat.le_max_right a.nesting b.nesting
  exact ⟨_, equal_trans (hab.within hnesting) (hbc.within hnesting')⟩

theorem equal_self_iff : a.Equal a ↔ ¬a.HasNan := by
  constructor
  · rintro ⟨limit, h⟩ hnan
    exact hnan.not_equal limit a h
  · exact fun hnan => ⟨a.nesting, equal_self (Nat.le_refl _) hnan⟩

theorem equal_array_iff {as bs : List Value} :
    (array as).Equal (array bs) ↔ List.Forall₂ Equal as bs := by
  constructor
  · rintro ⟨limit, h⟩
    cases limit with
    | zero => cases h
    | succ limit =>
        cases agrees_of_equal h with
        | array hitems => exact hitems.imp fun _ _ hitem => ⟨limit, hitem⟩
  · intro hitems
    have hnesting : ∀ item ∈ as, item.nesting ≤ nestingAll as :=
      nestingAll_le_iff.1 (Nat.le_refl _)
    have hwithin := (List.forall₂_and_left as bs).2 ⟨hnesting, hitems⟩
    exact ⟨nestingAll as + 1, Agrees.equal (.array (hwithin.imp fun _ _ h => h.2.within h.1))⟩

theorem equal_number_iff {m n : Number} : (number m).Equal (number n) ↔ m.equal n = true := by
  have h : (number m).equal 1 (number n) = .ok (m.equal n) := rfl
  exact (answer_iff h).symm

end Value

/-- Comparing two values gives one answer in either order, the same within every limit that
    allows for an answer; a limit does if one of the values is not nested deeper.  Equality is
    transitive, and a value is equal to itself unless it is or contains the number that is none.
    Equal values are of one kind.  Arrays are equal if they have as many items and these are
    equal, and numbers if they have one exact value. -/
theorem Value.equality_laws (a b c : Value) :
    (∀ limit, a.equal limit b = b.equal limit a) ∧
      (∀ limit answer, a.equal limit b = .ok answer → (answer = true ↔ a.Equal b)) ∧
      (∀ limit, a.nesting ≤ limit → ∃ answer, a.equal limit b = .ok answer) ∧
      (a.Equal b → b.Equal c → a.Equal c) ∧
      (a.Equal a ↔ ¬a.HasNan) ∧
      (a.Equal b → a.kind = b.kind) ∧
      (∀ as bs, (Value.array as).Equal (.array bs) ↔ as.length = bs.length ∧
        ∀ i (h : i < as.length) (h' : i < bs.length), as[i].Equal bs[i]) ∧
      ∀ m n, (Value.number m).Equal (.number n) ↔
        ∃ value, m.value? = some value ∧ n.value? = some value := by
  refine ⟨fun limit => equal_comm limit a b, fun _ _ => answer_iff,
    fun _ h => exists_equal_of_nesting h b, Equal.trans, equal_self_iff, ?_, ?_, ?_⟩
  · rintro ⟨limit, h⟩
    exact kind_eq_of_equal h
  · intro as bs
    rw [equal_array_iff, List.forall₂_iff_get]
    rfl
  · intro m n
    rw [equal_number_iff, Number.equal_iff_value?]

end CallLang
