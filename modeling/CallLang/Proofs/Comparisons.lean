/-
  CallLang/Proofs/Comparisons.lean
  ================================
  **The comparisons agree on one order.**

  The numbers that are numbers stand on one line, integers among doubles, and strings
  stand in the order of their code points.  Less, equal and greater all ask for these
  places, so of two operands exactly one of them holds, and an operand may be replaced
  by any that is equal to it.
-/
import CallLang.Builtin.Apply
import CallLang.Proofs.Equality

namespace CallLang

/-- The places of operands in one order: the line of numbers, and all strings behind it. -/
abbrev Place := NumberLine ⊕ₗ String

namespace Place

def number (value : NumberLine) : Place := Sum.inlₗ value

def string (text : String) : Place := Sum.inrₗ text

theorem number_lt {v w : NumberLine} : number v < number w ↔ v < w := Sum.Lex.inl_lt_inl_iff

theorem string_lt {s t : String} : string s < string t ↔ s < t := Sum.Lex.inr_lt_inr_iff

theorem number_inj {v w : NumberLine} : number v = number w ↔ v = w :=
  (toLex.injective.comp Sum.inl_injective).eq_iff

theorem string_inj {s t : String} : string s = string t ↔ s = t :=
  (toLex.injective.comp Sum.inr_injective).eq_iff

end Place

namespace Value

/-- Two operands that have an order: two numbers, neither of them the one that is none, or two
    strings. -/
inductive Comparable : Value → Value → Prop where
  | numbers {m n : Number} (hm : m ≠ .double .nan) (hn : n ≠ .double .nan) :
      Comparable (.number m) (.number n)
  | strings (s t : String) : Comparable (.string s) (.string t)

/-- The place of a value in the order by which it is compared, if it has one. -/
def place? : Value → Option Place
  | .number n => n.value?.map Place.number
  | .string text => some (Place.string text)
  | _ => none

variable {a b c : Value} {limit : Nat}

theorem Comparable.symm (h : a.Comparable b) : b.Comparable a := by
  cases h with
  | numbers hm hn => exact .numbers hn hm
  | strings s t => exact .strings t s

theorem Comparable.self (h : a.Comparable b) : a.Comparable a := by
  cases h with
  | numbers hm _ => exact .numbers hm hm
  | strings s _ => exact .strings s s

theorem Comparable.trans (hab : a.Comparable b) (hbc : b.Comparable c) : a.Comparable c := by
  cases hab with
  | numbers hm _ =>
      cases hbc with
      | numbers _ hn => exact .numbers hm hn
  | strings s _ =>
      cases hbc with
      | strings _ t => exact .strings s t

theorem Comparable.exists_place (h : a.Comparable b) : ∃ place, a.place? = some place := by
  cases h with
  | numbers hm _ =>
      obtain ⟨value, hvalue⟩ := Option.ne_none_iff_exists'.1 (mt Number.value?_eq_none_iff.1 hm)
      exact ⟨Place.number value, congrArg (Option.map Place.number) hvalue⟩
  | strings s _ => exact ⟨Place.string s, rfl⟩

/-- What is equal to an operand is an operand of the same place. -/
theorem Comparable.of_equal (h : a.Comparable b) (hequal : a.equal (limit + 1) c = .ok true) :
    a.Comparable c ∧ c.place? = a.place? := by
  cases h with
  | numbers hm _ =>
      cases agrees_of_equal hequal with
      | @number m n hmn =>
          obtain ⟨value, hvalue, hvalue'⟩ := Number.equal_iff_value?.1 hmn
          have hn : n ≠ .double .nan := by
            rw [ne_eq, ← Number.value?_eq_none_iff, hvalue']
            exact nofun
          exact ⟨.numbers hm hn, by rw [place?, place?, hvalue, hvalue']⟩
  | strings s _ =>
      cases agrees_of_equal hequal with
      | string => exact ⟨.strings s s, rfl⟩

end Value

/-- Whether a function of two values answers so, wherever it is called and in whatever store. -/
def Builtin.Answers (limit : Nat) (function : Builtin) (a b : Value) (answer : Bool) : Prop :=
  ∀ place store, function.apply limit place [a, b] store = (.ok (.boolean answer), store)

namespace Builtin

variable {limit : Nat} {function : Builtin} {a b c : Value} {x y : Place} {answer other : Bool}

theorem Answers.iff (h : function.Answers limit a b other) :
    function.Answers limit a b answer ↔ answer = other := by
  constructor
  · intro hanswer
    have heq := (hanswer none .empty).symm.trans (h none .empty)
    exact Value.boolean.inj (Except.ok.inj (congrArg Prod.fst heq))
  · rintro rfl
    exact h

theorem answers_equal_iff : equal.Answers limit a b answer ↔ a.equal limit b = .ok answer := by
  constructor
  · intro h
    have happly := congrArg Prod.fst (h none .empty)
    simp only [apply] at happly
    cases hequal : a.equal limit b with
    | ok other =>
        rw [hequal] at happly
        exact congrArg Except.ok (Value.boolean.inj (Except.ok.inj happly))
    | error cause =>
        rw [hequal] at happly
        cases happly
  · intro h place store
    simp only [apply, h]
    rfl

theorem answers_less (limit : Nat) (m n : Number) :
    less.Answers limit (.number m) (.number n) (m.lt n) :=
  fun _ _ => rfl

/-- The comparisons of two operands are those of their places. -/
theorem answers_of_places (limit : Nat) (h : a.Comparable b) (hx : a.place? = some x)
    (hy : b.place? = some y) :
    less.Answers (limit + 1) a b (decide (x < y)) ∧
      equal.Answers (limit + 1) a b (decide (x = y)) ∧
      greater.Answers (limit + 1) a b (decide (y < x)) := by
  cases h with
  | @numbers m n =>
      obtain ⟨v, hv, rfl⟩ := Option.map_eq_some_iff.1 hx
      obtain ⟨w, hw, rfl⟩ := Option.map_eq_some_iff.1 hy
      simp only [Place.number_lt, Place.number_inj]
      rw [← Number.lt_eq hv hw, ← Number.equal_eq hv hw, ← Number.lt_eq hw hv]
      exact ⟨answers_less _ m n, fun _ _ => rfl, fun _ _ => rfl⟩
  | strings s t =>
      obtain rfl := Option.some.inj hx
      obtain rfl := Option.some.inj hy
      simp only [Place.string_lt, Place.string_inj]
      rw [← beq_eq_decide]
      exact ⟨fun _ _ => rfl, fun _ _ => rfl, fun _ _ => rfl⟩

/-- Operands of the same places are compared alike. -/
theorem answers_congr {a' b' : Value} (hfunction : function ∈ [less, equal, greater])
    (h : a.Comparable b) (h' : a'.Comparable b') (ha : a'.place? = a.place?)
    (hb : b'.place? = b.place?) :
    function.Answers (limit + 1) a' b' answer ↔ function.Answers (limit + 1) a b answer := by
  obtain ⟨x, hx⟩ := h.exists_place
  obtain ⟨y, hy⟩ := h.symm.exists_place
  obtain ⟨hless, hequal, hgreater⟩ := answers_of_places limit h hx hy
  obtain ⟨hless', hequal', hgreater'⟩ :=
    answers_of_places limit h' (ha.trans hx) (hb.trans hy)
  simp only [List.mem_cons, List.not_mem_nil, or_false] at hfunction
  rcases hfunction with rfl | rfl | rfl
  · rw [hless.iff, hless'.iff]
  · rw [hequal.iff, hequal'.iff]
  · rw [hgreater.iff, hgreater'.iff]

/-- Of two operands that have an order exactly one of less, equal and greater holds, and none of
    the three fails.  Greater is less the other way round; less is transitive and holds of no
    operand and itself; and an operand may be replaced by whatever is equal to it. -/
theorem comparisons_coherent (limit : Nat) {a b : Value} (h : a.Comparable b) :
    (∃ order : Ordering, less.Answers (limit + 1) a b (order == .lt) ∧
        equal.Answers (limit + 1) a b (order == .eq) ∧
        greater.Answers (limit + 1) a b (order == .gt)) ∧
      (∀ answer, greater.Answers (limit + 1) a b answer ↔ less.Answers (limit + 1) b a answer) ∧
      less.Answers (limit + 1) a a false ∧
      (∀ c, b.Comparable c → less.Answers (limit + 1) a b true →
        less.Answers (limit + 1) b c true → less.Answers (limit + 1) a c true) ∧
      ∀ c, equal.Answers (limit + 1) a c true → ∀ function ∈ [less, equal, greater], ∀ answer,
        (function.Answers (limit + 1) c b answer ↔ function.Answers (limit + 1) a b answer) ∧
        (function.Answers (limit + 1) b c answer ↔ function.Answers (limit + 1) b a answer) := by
  obtain ⟨x, hx⟩ := h.exists_place
  obtain ⟨y, hy⟩ := h.symm.exists_place
  obtain ⟨hless, hequal, hgreater⟩ := answers_of_places limit h hx hy
  refine ⟨?_, ?_, ?_, ?_, ?_⟩
  · rcases lt_trichotomy x y with hxy | hxy | hxy
    · refine ⟨.lt, ?_⟩
      rw [decide_eq_true hxy] at hless
      rw [decide_eq_false hxy.ne] at hequal
      rw [decide_eq_false hxy.not_gt] at hgreater
      exact ⟨hless, hequal, hgreater⟩
    · refine ⟨.eq, ?_⟩
      rw [decide_eq_false hxy.not_lt] at hless
      rw [decide_eq_true hxy] at hequal
      rw [decide_eq_false hxy.not_gt] at hgreater
      exact ⟨hless, hequal, hgreater⟩
    · refine ⟨.gt, ?_⟩
      rw [decide_eq_false hxy.not_gt] at hless
      rw [decide_eq_false hxy.ne'] at hequal
      rw [decide_eq_true hxy] at hgreater
      exact ⟨hless, hequal, hgreater⟩
  · intro answer
    rw [hgreater.iff, (answers_of_places limit h.symm hy hx).1.iff]
  · have hself := (answers_of_places limit h.self hx hx).1
    rwa [decide_eq_false (lt_irrefl x)] at hself
  · intro c hc hab hbc
    obtain ⟨z, hz⟩ := hc.symm.exists_place
    have hxy : x < y := of_decide_eq_true (hless.iff.1 hab).symm
    have hyz : y < z := of_decide_eq_true ((answers_of_places limit hc hy hz).1.iff.1 hbc).symm
    have hac := (answers_of_places limit (h.trans hc) hx hz).1
    rwa [decide_eq_true (hxy.trans hyz)] at hac
  · intro c hac function hfunction answer
    obtain ⟨hself, hplace⟩ := h.of_equal (answers_equal_iff.1 hac)
    have hcb := hself.symm.trans h
    exact ⟨answers_congr hfunction h hcb hplace rfl, answers_congr hfunction h.symm hcb.symm rfl hplace⟩

/-- Where doubles stand two apart, an integer between two of them is still told from both. -/
theorem comparisons_coherent_between :
    let below : Value := .double (Double.round false (2 ^ 53 * Double.one) 1)
    let between : Value := .int (2 ^ 53 + 1)
    let above : Value := .double (Double.round false ((2 ^ 53 + 2) * Double.one) 1)
    below.Comparable between ∧ between.Comparable above ∧ less.Answers 1 below between true ∧
      less.Answers 1 between above true ∧ less.Answers 1 below above true ∧
      greater.Answers 1 between below true ∧ equal.Answers 1 below (.int (2 ^ 53)) true ∧
      less.Answers 1 (.int (2 ^ 53)) between true := by
  intro below between above
  have hbelow : Double.round false (2 ^ 53 * Double.one) 1 ≠ .nan := by decide +kernel
  have habove : Double.round false ((2 ^ 53 + 2) * Double.one) 1 ≠ .nan := by decide +kernel
  have h : below.Comparable between := .numbers (fun heq => hbelow (Number.double.inj heq)) nofun
  have h' : between.Comparable above := .numbers nofun fun heq => habove (Number.double.inj heq)
  have hless : less.Answers 1 below between true := by
    have hlt : Number.lt (.double (Double.round false (2 ^ 53 * Double.one) 1))
        (.int (2 ^ 53 + 1)) = true := by decide +kernel
    exact hlt ▸ answers_less 1 _ _
  have hless' : less.Answers 1 between above true := by
    have hlt : Number.lt (.int (2 ^ 53 + 1))
        (.double (Double.round false ((2 ^ 53 + 2) * Double.one) 1)) = true := by decide +kernel
    exact hlt ▸ answers_less 1 _ _
  have hequal : equal.Answers 1 below (.int (2 ^ 53)) true := by
    have heq : Number.equal (.double (Double.round false (2 ^ 53 * Double.one) 1))
        (.int (2 ^ 53)) = true := by decide +kernel
    exact answers_equal_iff.2 (congrArg Except.ok heq)
  obtain ⟨-, -, -, htrans, hreplace⟩ := comparisons_coherent 0 h
  have hgreater := ((comparisons_coherent 0 h.symm).2.1 true).2 hless
  have hreplaced := (hreplace _ hequal less (by simp) true).1.2 hless
  exact ⟨h, h', hless, hless', htrans above h' hless hless', hgreater, hequal, hreplaced⟩

end Builtin

end CallLang
