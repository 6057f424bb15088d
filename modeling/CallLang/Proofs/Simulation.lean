/-
  CallLang/Proofs/Simulation.lean
  ===============================
  **Evaluation respects correspondences.**

  If two stores are the same up to a correspondence, so are the outcomes of
  evaluating the same expression in scopes that stand for each other: the same
  value, or the same mistake, and stores that are the same again.  The
  correspondence may have grown by then, but only by scopes and closures that are
  new in both stores, and these are paired in the order in which they were made.

  The proof follows the evaluator.  Actions that do the same are put together to
  actions that do the same; the induction is on the depth of evaluation, and the
  correspondence grows on the way.  All that is asked of the relation between the
  stores is that the smallest actions keep it (`Likeness`).
-/
import CallLang.Proofs.Correspondence
import CallLang.Proofs.Steps

namespace CallLang

/-- How a relation between numbers grows while two counters go on: both by as many steps, and
    the numbers that are new are paired in order. -/
def Extends (r r' : Nat → Nat → Prop) (before before' after after' : Nat) : Prop :=
  ∃ steps, after = before + steps ∧ after' = before' + steps ∧
    ∀ id id', r' id id' ↔ r id id' ∨ ∃ k < steps, id = before + k ∧ id' = before' + k

namespace Extends

variable {r r' r'' : Nat → Nat → Prop} {a a' b b' d d' : Nat}

theorem refl (r : Nat → Nat → Prop) (a a' : Nat) : Extends r r a a' a a' :=
  ⟨0, rfl, rfl, by simp⟩

theorem insert (r : Nat → Nat → Prop) (a a' : Nat) :
    Extends r (fun x y => r x y ∨ (x = a ∧ y = a')) a a' (a + 1) (a' + 1) := by
  refine ⟨1, rfl, rfl, fun id id' => or_congr_right ?_⟩
  constructor
  · rintro ⟨rfl, rfl⟩
    exact ⟨0, Nat.zero_lt_one, rfl, rfl⟩
  · rintro ⟨k, hk, rfl, rfl⟩
    obtain rfl := Nat.lt_one_iff.1 hk
    exact ⟨rfl, rfl⟩

theorem trans (h : Extends r r' a a' b b') (h' : Extends r' r'' b b' d d') :
    Extends r r'' a a' d d' := by
  obtain ⟨m, rfl, rfl, hm⟩ := h
  obtain ⟨n, rfl, rfl, hn⟩ := h'
  refine ⟨m + n, by omega, by omega, fun id id' => ?_⟩
  rw [hn, hm, or_assoc]
  refine or_congr_right ?_
  constructor
  · rintro (⟨k, hk, rfl, rfl⟩ | ⟨k, hk, rfl, rfl⟩)
    · exact ⟨k, by omega, rfl, rfl⟩
    · exact ⟨m + k, by omega, by omega, by omega⟩
  · rintro ⟨k, hk, rfl, rfl⟩
    by_cases hfirst : k < m
    · exact .inl ⟨k, hfirst, rfl, rfl⟩
    · exact .inr ⟨k - m, by omega, by omega, by omega⟩

theorem le (h : Extends r r' a a' b b') {id id' : Nat} (hid : r id id') : r' id id' := by
  obtain ⟨_, -, -, hiff⟩ := h
  exact (hiff id id').2 (.inl hid)

theorem fresh (h : Extends r r' a a' b b') {id id' : Nat} (hid : r' id id') :
    r id id' ∨ (a ≤ id ∧ a' ≤ id') := by
  obtain ⟨_, -, -, hiff⟩ := h
  refine ((hiff id id').1 hid).imp_right ?_
  rintro ⟨k, -, rfl, rfl⟩
  exact ⟨Nat.le_add_right _ _, Nat.le_add_right _ _⟩

end Extends

/-- How a correspondence grows while two stores change: by the scopes and the closures that are
    new, in the order in which they were made. -/
structure Correspondence.Grows (w w' : Correspondence) (before before' after after' : Store) :
    Prop where
  scopes : Extends w.scopes w'.scopes before.scopes.size before'.scopes.size after.scopes.size
    after'.scopes.size
  closures : Extends w.closures w'.closures before.closures before'.closures after.closures
    after'.closures

/-- Whether two results are the same, given when values are. -/
inductive Result.Same {α β : Type} (c : Comparison) (values : α → β → Prop) :
    Except Stop α → Except Stop β → Prop where
  | ok {a : α} {b : β} (h : values a b) : Result.Same c values (.ok a) (.ok b)
  | error {reason reason' : Stop} (h : Stop.Same c reason reason') :
      Result.Same c values (.error reason) (.error reason')

/-- Whether two actions do the same to all stores that are alike, from a correspondence on. -/
def Action.Same {α β : Type} (c : Comparison) (like : Correspondence → Store → Store → Prop)
    (w : Correspondence) (values : Correspondence → α → β → Prop) (action : Action α)
    (action' : Action β) : Prop :=
  ∀ w₁ store store', w.Le w₁ → like w₁ store store' →
    ∃ w₂, w₁.Grows w₂ store store' (action store).2 (action' store').2 ∧
      like w₂ (action store).2 (action' store').2 ∧
      Result.Same c (values w₂) (action store).1 (action' store').1

/-- Whether the smallest actions keep a relation between stores. -/
structure Likeness (c : Comparison) (like : Correspondence → Store → Store → Prop) : Prop where
  scopesUnambiguous : ∀ {w store store'}, like w store store' → Unambiguous w.scopes
  closuresUnambiguous : ∀ {w store store'}, like w store store' → Unambiguous w.closures
  lookup : ∀ {w store store' id id'}, like w store store' → w.scopes id id' → ∀ name,
    Option.Rel (Value.Same c w) (store.lookup? id name) (store'.lookup? id' name)
  create : ∀ {w store store' parent parent' bindings bindings'}, like w store store' →
    w.scopes parent parent' → Bindings.Same c w bindings bindings' →
    like (w.addScope store.scopes.size store'.scopes.size)
      (store.create (some parent) bindings).2 (store'.create (some parent') bindings').2
  define : ∀ {w store store' id id' value value'}, like w store store' → w.scopes id id' →
    Value.Same c w value value' → ∀ name,
    like w (store.define id name value) (store'.define id' name value')
  print : ∀ {w store store'}, like w store store' → ∀ text,
    like w (store.print text) (store'.print text)
  close : ∀ {w store store'}, like w store store' →
    like (w.addClosure store.closures store'.closures)
      { store with closures := store.closures + 1 }
      { store' with closures := store'.closures + 1 }

variable {c : Comparison} {like : Correspondence → Store → Store → Prop} {w w' : Correspondence}

theorem Result.Same.map {c' : Comparison} (hspans : c.spans ≤ c'.spans)
    {result result' : Except Stop Value} (h : Result.Same c (Value.Same c w) result result') :
    Result.Same c' (Value.Same c' w) result result' := by
  cases h with
  | ok h => exact .ok (h.map hspans (.refl w))
  | error h => exact .error (h.map hspans)

namespace Correspondence

variable {before before' after after' : Store}

theorem Grows.refl (w : Correspondence) (store store' : Store) :
    w.Grows w store store' store store' :=
  ⟨.refl _ _ _, .refl _ _ _⟩

theorem Grows.trans {w₁ w₂ w₃ : Correspondence} {last last' : Store}
    (h : w₁.Grows w₂ before before' after after') (h' : w₂.Grows w₃ after after' last last') :
    w₁.Grows w₃ before before' last last' :=
  ⟨h.scopes.trans h'.scopes, h.closures.trans h'.closures⟩

theorem Grows.le (h : w.Grows w' before before' after after') : w.Le w' :=
  ⟨fun _ _ => h.scopes.le, fun _ _ => h.closures.le⟩

theorem grows_addScope (w : Correspondence) (store store' : Store) (parent parent' : Option ScopeId)
    (bindings bindings' : Bindings) :
    w.Grows (w.addScope store.scopes.size store'.scopes.size) store store'
      (store.create parent bindings).2 (store'.create parent' bindings').2 := by
  refine ⟨?_, .refl _ _ _⟩
  rw [Store.size_create, Store.size_create]
  exact .insert _ _ _

theorem grows_addClosure (w : Correspondence) (store store' : Store) :
    w.Grows (w.addClosure store.closures store'.closures) store store'
      { store with closures := store.closures + 1 }
      { store' with closures := store'.closures + 1 } :=
  ⟨.refl _ _ _, .insert _ _ _⟩

end Correspondence

/-! ### Changes of stores -/

namespace Store.SameAt

variable {store store' : Store} {id id' : ScopeId}

theorem create_of_old (h : Store.SameAt c w store store' id id') (parent parent' : Option ScopeId)
    (bindings bindings' : Bindings) :
    Store.SameAt c (w.addScope store.scopes.size store'.scopes.size)
      (store.create parent bindings).2 (store'.create parent' bindings').2 id id' := by
  have hlt := h.lt
  obtain ⟨scope, scope', hscope, hscope', hsame, horder⟩ :=
    h.mono (w.le_addScope store.scopes.size store'.scopes.size)
  refine ⟨scope, scope', ?_, ?_, hsame, horder⟩
  · rw [scopes_create_of_lt store parent bindings hlt.1, hscope]
  · rw [scopes_create_of_lt store' parent' bindings' hlt.2, hscope']

theorem create_of_new {parent parent' : Option ScopeId}
    (hparent : Option.Rel w.scopes parent parent')
    (hlt : ∀ outer outer', w.scopes outer outer' →
      outer < store.scopes.size ∧ outer' < store'.scopes.size)
    {bindings bindings' : Bindings} (hbindings : Bindings.Same c w bindings bindings') :
    Store.SameAt c (w.addScope store.scopes.size store'.scopes.size)
      (store.create parent bindings).2 (store'.create parent' bindings').2
      store.scopes.size store'.scopes.size := by
  have hle := w.le_addScope store.scopes.size store'.scopes.size
  refine ⟨{ parent, bindings }, { parent := parent', bindings := bindings' }, ?_, ?_,
    ⟨hle.parent hparent, hbindings.mono hle⟩, ?_⟩
  · rw [scopes_create, if_pos rfl]
  · rw [scopes_create, if_pos rfl]
  · cases hparent with
    | none => simp
    | some houter =>
        obtain ⟨hbefore, hbefore'⟩ := hlt _ _ houter
        constructor <;> rintro _ ⟨rfl⟩
        · exact hbefore
        · exact hbefore'

theorem define_self (h : Store.SameAt c w store store' id id') (name : String)
    {value value' : Value} (hvalue : Value.Same c w value value') :
    Store.SameAt c w (store.define id name value) (store'.define id' name value') id id' := by
  obtain ⟨scope, scope', hscope, hscope', hsame, horder⟩ := h
  refine ⟨{ scope with bindings := scope.bindings.set name value },
    { scope' with bindings := scope'.bindings.set name value' }, ?_, ?_,
    ⟨hsame.parent, hsame.bindings.set name hvalue⟩, horder⟩
  · rw [scopes_define_self, hscope, Option.map_some]
  · rw [scopes_define_self, hscope', Option.map_some]

theorem define_of_ne (h : Store.SameAt c w store store' id id') {other other' : ScopeId}
    (hother : id ≠ other) (hother' : id' ≠ other') (name : String) (value value' : Value) :
    Store.SameAt c w (store.define other name value) (store'.define other' name value') id id' := by
  obtain ⟨scope, scope', hscope, hscope', hsame, horder⟩ := h
  refine ⟨scope, scope', ?_, ?_, hsame, horder⟩
  · rw [scopes_define_of_ne store other name value hother, hscope]
  · rw [scopes_define_of_ne store' other' name value' hother', hscope']

end Store.SameAt

/-- What has been printed stays the same when both stores print the same. -/
theorem Store.printed_print {c : Comparison} {store store' : Store}
    (h : ∃ since, store.printed = c.told ++ since ∧ store'.printed = c.told' ++ since)
    (text : String) :
    ∃ since, (store.print text).printed = c.told ++ since ∧
      (store'.print text).printed = c.told' ++ since := by
  obtain ⟨since, hprinted, hprinted'⟩ := h
  refine ⟨since.push text, ?_, ?_⟩
  · rw [print_printed, hprinted, Array.append_push]
  · rw [print_printed, hprinted', Array.append_push]

/-- Closures exist that stand for each other, also when both stores have made one more. -/
theorem Store.closures_close {store store' : Store}
    (h : ∀ id id', w.closures id id' → id < store.closures ∧ id' < store'.closures) (id id' : Nat)
    (hid : (w.addClosure store.closures store'.closures).closures id id') :
    id < store.closures + 1 ∧ id' < store'.closures + 1 := by
  rcases hid with hid | ⟨rfl, rfl⟩
  · have hlt := h id id' hid
    exact ⟨Nat.lt_succ_of_lt hlt.1, Nat.lt_succ_of_lt hlt.2⟩
  · exact ⟨Nat.lt_succ_self _, Nat.lt_succ_self _⟩

namespace Store.Same

variable {store store' : Store}

theorem create (h : Store.Same c w store store') {parent parent' : Option ScopeId}
    {bindings bindings' : Bindings} (hparent : Option.Rel w.scopes parent parent')
    (hbindings : Bindings.Same c w bindings bindings') :
    Store.Same c (w.addScope store.scopes.size store'.scopes.size)
      (store.create parent bindings).2 (store'.create parent' bindings').2 where
  scopes := by
    rintro id id' (hid | ⟨rfl, rfl⟩)
    · exact SameAt.create_of_old (h.scopes id id' hid) parent parent' bindings bindings'
    · exact SameAt.create_of_new hparent (fun _ _ => h.lt) hbindings
  closures := h.closures
  scopesUnambiguous := h.scopesUnambiguous.insert fun _ _ hid => h.lt hid
  closuresUnambiguous := h.closuresUnambiguous
  printed := h.printed

theorem define (h : Store.Same c w store store') {id id' : ScopeId} (hid : w.scopes id id')
    (name : String) {value value' : Value} (hvalue : Value.Same c w value value') :
    Store.Same c w (store.define id name value) (store'.define id' name value') where
  scopes := by
    intro other other' hother
    have hsame : SameAt c w store store' other other' := h.scopes other other' hother
    have hiff := h.scopesUnambiguous other id other' id' hother hid
    by_cases heq : other = id
    · obtain rfl := heq
      obtain rfl := hiff.1 rfl
      exact hsame.define_self name hvalue
    · exact hsame.define_of_ne heq (mt hiff.2 heq) name value value'
  closures := h.closures
  scopesUnambiguous := h.scopesUnambiguous
  closuresUnambiguous := h.closuresUnambiguous
  printed := h.printed

theorem print (h : Store.Same c w store store') (text : String) :
    Store.Same c w (store.print text) (store'.print text) where
  scopes := h.scopes
  closures := h.closures
  scopesUnambiguous := h.scopesUnambiguous
  closuresUnambiguous := h.closuresUnambiguous
  printed := printed_print h.printed text

theorem close (h : Store.Same c w store store') :
    Store.Same c (w.addClosure store.closures store'.closures)
      { store with closures := store.closures + 1 }
      { store' with closures := store'.closures + 1 } where
  scopes := by
    intro id id' hid
    exact SameAt.mono (w.le_addClosure store.closures store'.closures) (h.scopes id id' hid)
  closures := closures_close h.closures
  scopesUnambiguous := h.scopesUnambiguous
  closuresUnambiguous := h.closuresUnambiguous.insert h.closures
  printed := h.printed

end Store.Same

/-- The smallest actions keep stores the same. -/
theorem Store.likeness (c : Comparison) : Likeness c (Store.Same c) where
  scopesUnambiguous := fun h => h.scopesUnambiguous
  closuresUnambiguous := fun h => h.closuresUnambiguous
  lookup := fun h hid name => h.lookup? name hid
  create := fun h hparent hbindings => h.create (.some hparent) hbindings
  define := fun h hid hvalue name => h.define hid name hvalue
  print := fun h text => h.print text
  close := fun h => h.close

/-! ### Actions -/

namespace Action.Same

variable {α β γ δ : Type} {values : Correspondence → α → β → Prop}
  {values' : Correspondence → γ → δ → Prop}

theorem ofExcept {result : Except Stop α} {result' : Except Stop β}
    (h : ∀ w₁, w.Le w₁ → Result.Same c (values w₁) result result') :
    Action.Same c like w values (Action.ofExcept result) (Action.ofExcept result') :=
  fun w₁ store store' hw hsame => ⟨w₁, .refl w₁ store store', hsame, h w₁ hw⟩

theorem pure {a : α} {b : β} (h : ∀ w₁, w.Le w₁ → values w₁ a b) :
    Action.Same c like w values (Action.pure a) (Action.pure b) :=
  ofExcept fun w₁ hw => .ok (h w₁ hw)

theorem stop {reason reason' : Stop} (h : Stop.Same c reason reason') :
    Action.Same c like w values (Action.stop reason) (Action.stop reason') :=
  ofExcept fun _ _ => .error h

theorem fail (cause : Mistake) {span span' : Option Span} (h : Option.Rel c.spans span span') :
    Action.Same c like w values (Action.fail cause span) (Action.fail cause span') :=
  stop (.mistake cause h)

theorem bind {first : Action α} {first' : Action β} {second : α → Action γ}
    {second' : β → Action δ} (hfirst : Action.Same c like w values first first')
    (hsecond : ∀ w₁ a b, w.Le w₁ → values w₁ a b →
      Action.Same c like w₁ values' (second a) (second' b)) :
    Action.Same c like w values' (Action.bind first second) (Action.bind first' second') := by
  intro w₁ store store' hw hsame
  obtain ⟨w₂, hgrows, hsame₂, hresult⟩ := hfirst w₁ store store' hw hsame
  unfold Action.bind
  generalize first store = out, first' store' = out' at hgrows hsame₂ hresult ⊢
  obtain ⟨result, after⟩ := out
  obtain ⟨result', after'⟩ := out'
  cases hresult with
  | ok hvalue =>
      obtain ⟨w₃, hgrows₃, hsame₃, hresult₃⟩ :=
        hsecond w₂ _ _ (hw.trans hgrows.le) hvalue w₂ after after' (.refl w₂) hsame₂
      exact ⟨w₃, hgrows.trans hgrows₃, hsame₃, hresult₃⟩
  | error hreason => exact ⟨w₂, hgrows, hsame₂, .error hreason⟩

theorem ofBreakdown (result : Except Breakdown α) :
    Action.Same c like w (fun _ => Eq) (Action.ofBreakdown result) (Action.ofBreakdown result) := by
  cases result with
  | ok a => exact pure fun _ _ => rfl
  | error cause => exact stop (.breakdown cause)

theorem lookup (hlike : Likeness c like) {id id' : ScopeId} (hid : w.scopes id id') (name : String)
    {span span' : Span} (hspan : c.spans span span') :
    Action.Same c like w (Value.Same c) (Action.lookup id name span) (Action.lookup id' name span') := by
  intro w₁ store store' hw hsame
  have hvalue := hlike.lookup hsame (hw.scopes _ _ hid) name
  unfold Action.lookup
  generalize store.lookup? id name = found, store'.lookup? id' name = found' at hvalue ⊢
  refine ⟨w₁, ?_⟩
  cases hvalue with
  | some hvalue => exact ⟨.refl w₁ store store', hsame, .ok hvalue⟩
  | none => exact ⟨.refl w₁ store store', hsame, .error (.mistake _ (.some hspan))⟩

theorem create (hlike : Likeness c like) {parent parent' : ScopeId} {bindings bindings' : Bindings}
    (hparent : w.scopes parent parent') (hbindings : Bindings.Same c w bindings bindings') :
    Action.Same c like w Correspondence.scopes (Action.create (some parent) bindings)
      (Action.create (some parent') bindings') := by
  intro w₁ store store' hw hsame
  exact ⟨w₁.addScope store.scopes.size store'.scopes.size, w₁.grows_addScope _ _ _ _ _ _,
    hlike.create hsame (hw.scopes _ _ hparent) (hbindings.mono hw), .ok (.inr ⟨rfl, rfl⟩)⟩

theorem define (hlike : Likeness c like) {id id' : ScopeId} (hid : w.scopes id id') (name : String)
    {value value' : Value} (hvalue : Value.Same c w value value') :
    Action.Same c like w (fun _ _ _ => True) (Action.define id name value)
      (Action.define id' name value') := by
  intro w₁ store store' hw hsame
  refine ⟨w₁, ⟨?_, .refl _ _ _⟩,
    hlike.define hsame (hw.scopes _ _ hid) (hvalue.mono hw) name, .ok trivial⟩
  simp only [Action.define, Store.size_define]
  exact .refl _ _ _

theorem print (hlike : Likeness c like) (text : String) :
    Action.Same c like w (fun _ _ _ => True) (Action.print text) (Action.print text) := by
  intro w₁ store store' hw hsame
  exact ⟨w₁, ⟨.refl _ _ _, .refl _ _ _⟩, hlike.print hsame text, .ok trivial⟩

theorem close (hlike : Likeness c like) (parameters : List String) {body body' : Expr}
    (hbody : Expr.Same c w body body') {id id' : ScopeId} (hid : w.scopes id id') :
    Action.Same c like w (Value.Same c) (Action.close parameters body id)
      (Action.close parameters body' id') := by
  intro w₁ store store' hw hsame
  have hle := w₁.le_addClosure store.closures store'.closures
  refine ⟨w₁.addClosure store.closures store'.closures, w₁.grows_addClosure _ _,
    hlike.close hsame, .ok ?_⟩
  exact .closure (.inr ⟨rfl, rfl⟩) (hbody.mono (hw.trans hle)) (hw.scopes _ _ hid)

end Action.Same

/-! ### Built-in functions -/

namespace Builtin

variable {a a' b b' : Value} {place place' : Option Span}

theorem same_arithmetic (function : Builtin) (operation : Number → Number → Option Number)
    (ha : Value.Same c w a a') (hb : Value.Same c w b b')
    (hplace : Option.Rel c.spans place place') :
    Action.Same c like w (Value.Same c) (arithmetic function operation a b place)
      (arithmetic function operation a' b' place') := by
  cases ha with
  | number m =>
      cases hb with
      | number n =>
          simp only [arithmetic]
          cases operation m n with
          | none => exact .stop (.breakdown _)
          | some sum => exact .pure fun _ _ => .number sum
      | _ => exact .fail _ hplace
  | _ => cases hb <;> exact .fail _ hplace

theorem same_sum (ha : Value.Same c w a a') (hb : Value.Same c w b b')
    (hplace : Option.Rel c.spans place place') :
    Action.Same c like w (Value.Same c) (sum a b place) (sum a' b' place') := by
  cases ha with
  | number m =>
      cases hb with
      | number n => exact same_arithmetic add Number.add (.number m) (.number n) hplace
      | _ => exact .fail _ hplace
  | string s =>
      cases hb with
      | string t => exact .pure fun _ _ => .string (s ++ t)
      | _ => exact .fail _ hplace
  | _ => cases hb <;> exact .fail _ hplace

theorem same_quotient (ha : Value.Same c w a a') (hb : Value.Same c w b b')
    (hplace : Option.Rel c.spans place place') :
    Action.Same c like w (Value.Same c) (quotient a b place) (quotient a' b' place') := by
  cases ha with
  | number m =>
      cases hb with
      | number n =>
          simp only [quotient]
          cases m.div n with
          | ok number => exact .pure fun _ _ => .number number
          | error fault => cases fault <;> exact .fail _ hplace
      | _ => exact .fail _ hplace
  | _ => cases hb <;> exact .fail _ hplace

theorem same_comparison (function : Builtin) (numbers : Number → Number → Bool)
    (strings : String → String → Bool) (ha : Value.Same c w a a') (hb : Value.Same c w b b')
    (hplace : Option.Rel c.spans place place') :
    Action.Same c like w (Value.Same c) (comparison function numbers strings a b place)
      (comparison function numbers strings a' b' place') := by
  cases ha with
  | number m =>
      cases hb with
      | number n => exact .pure fun _ _ => .boolean (numbers m n)
      | _ => exact .fail _ hplace
  | string s =>
      cases hb with
      | string t => exact .pure fun _ _ => .boolean (strings s t)
      | _ => exact .fail _ hplace
  | _ => cases hb <;> exact .fail _ hplace

theorem same_item {items items' : List Value} (hitems : Value.AllSame c w items items')
    (index : Number) (hplace : Option.Rel c.spans place place') :
    Action.Same c like w (Value.Same c) (item items index place) (item items' index place') := by
  have hfound : Option.Rel (Value.Same c w)
      (index.toInt?.bind fun n => if n < 0 then none else items[n.toNat]?)
      (index.toInt?.bind fun n => if n < 0 then none else items'[n.toNat]?) := by
    cases index.toInt? with
    | none => exact .none
    | some n =>
        by_cases hn : n < 0
        · simp only [Option.bind_some, if_pos hn]
          exact .none
        · simp only [Option.bind_some, if_neg hn]
          exact hitems.getElem? n.toNat
  unfold item
  simp only
  generalize (index.toInt?.bind fun n => if n < 0 then none else items[n.toNat]?) = found,
    (index.toInt?.bind fun n => if n < 0 then none else items'[n.toNat]?) = found' at hfound ⊢
  cases hfound with
  | some hvalue => exact .pure fun _ hw => hvalue.mono hw
  | none =>
      cases index.display with
      | ok shown =>
          rw [hitems.length_eq]
          exact .fail _ hplace
      | error cause => exact .stop (.breakdown cause)

theorem same_equal (hlike : Likeness c like) (limit : Nat) (ha : Value.Same c w a a')
    (hb : Value.Same c w b b') :
    Action.Same c like w (fun _ => Eq) (Action.ofBreakdown (Value.equal limit a b))
      (Action.ofBreakdown (Value.equal limit a' b')) := by
  intro w₁ store store' hw hsame
  rw [(ha.mono hw).equal_eq (hlike.scopesUnambiguous hsame) (hlike.closuresUnambiguous hsame)
    (hb.mono hw) limit]
  exact Action.Same.ofBreakdown (Value.equal limit a' b') w₁ store store' hw hsame

theorem same_apply (hlike : Likeness c like) (limit : Nat)
    (hplace : Option.Rel c.spans place place') (function : Builtin)
    {arguments arguments' : List Value} (h : Value.AllSame c w arguments arguments') :
    Action.Same c like w (Value.Same c) (function.apply limit place arguments)
      (function.apply limit place' arguments') := by
  -- two arguments have two counterparts, and one has one
  have hpair : ∀ {a b : Value}, arguments = [a, b] → ∃ a' b', arguments' = [a', b'] ∧
      Value.Same c w a a' ∧ Value.Same c w b b' := by
    rintro a b rfl
    obtain _ | ⟨ha, _ | ⟨hb, _ | _⟩⟩ := h
    exact ⟨_, _, rfl, ha, hb⟩
  have hsingle : ∀ {a : Value}, arguments = [a] → ∃ a', arguments' = [a'] ∧
      Value.Same c w a a' := by
    rintro a rfl
    obtain _ | ⟨ha, _ | _⟩ := h
    exact ⟨_, rfl, ha⟩
  cases function.use arguments with
  | add a b =>
      obtain ⟨a', b', rfl, ha, hb⟩ := hpair rfl
      exact same_sum ha hb hplace
  | subtract a b =>
      obtain ⟨a', b', rfl, ha, hb⟩ := hpair rfl
      exact same_arithmetic subtract Number.sub ha hb hplace
  | multiply a b =>
      obtain ⟨a', b', rfl, ha, hb⟩ := hpair rfl
      exact same_arithmetic multiply Number.mul ha hb hplace
  | divide a b =>
      obtain ⟨a', b', rfl, ha, hb⟩ := hpair rfl
      exact same_quotient ha hb hplace
  | equal a b =>
      obtain ⟨a', b', rfl, ha, hb⟩ := hpair rfl
      refine (same_equal hlike limit ha hb).bind fun w₁ answer answer' _ heq => ?_
      subst heq
      exact .pure fun _ _ => .boolean answer
  | less a b =>
      obtain ⟨a', b', rfl, ha, hb⟩ := hpair rfl
      exact same_comparison less _ _ ha hb hplace
  | greater a b =>
      obtain ⟨a', b', rfl, ha, hb⟩ := hpair rfl
      exact same_comparison greater _ _ ha hb hplace
  | print value =>
      obtain ⟨value', rfl, hvalue⟩ := hsingle rfl
      simp only [apply, hvalue.display_eq]
      refine (Action.Same.ofBreakdown _).bind fun w₁ text text' hw heq => ?_
      subst heq
      refine (Action.Same.print hlike text).bind fun w₂ _ _ hw' _ => ?_
      exact .pure fun w₃ hw'' => hvalue.mono (hw.trans (hw'.trans hw''))
  | array items => exact .pure fun _ hw => .array (h.mono hw)
  | length value =>
      obtain ⟨value', rfl, hvalue⟩ := hsingle rfl
      cases hvalue with
      | array hitems =>
          simp only [apply, hitems.length_eq]
          exact .pure fun _ _ => .number _
      | _ => exact .fail _ hplace
  | element value index =>
      obtain ⟨value', index', rfl, hvalue, hindex⟩ := hpair rfl
      cases hvalue with
      | array hitems =>
          cases hindex with
          | number n => exact same_item hitems n hplace
          | _ => exact .fail _ hplace
      | _ => exact .fail _ hplace
  | wrong hexpected hlength =>
      have hlength' := h.length_eq ▸ hlength
      rw [apply_misused hexpected hlength, apply_misused hexpected hlength', h.length_eq]
      exact .fail _ hplace

end Builtin

/-! ### Forms -/

/-- Whether two evaluators do the same with expressions that are the same. -/
def Evaluator.Same (c : Comparison) (like : Correspondence → Store → Store → Prop)
    (evaluate evaluate' : Evaluator) : Prop :=
  ∀ w expr expr' scope scope', Expr.Same c w expr expr' → w.scopes scope scope' →
    Action.Same c like w (Value.Same c) (evaluate expr scope) (evaluate' expr' scope')

theorem Expr.Same.form?_eq {e e' : Expr} (h : Expr.Same c w e e') : e.form? = e'.form? := by
  cases h <;> rfl

theorem Form.suits_iff (f : Form) {operands operands' : List Expr}
    (h : Expr.AllSame c w operands operands') : f.Suits operands ↔ f.Suits operands' := by
  cases f with
  | conditional => simp only [Form.Suits, h.length_eq]
  | loop => simp only [Form.Suits, h.length_eq]
  | sequence => exact Iff.rfl
  | define =>
      constructor
      · rintro ⟨name, place, expr, rfl⟩
        obtain _ | ⟨hname, _ | ⟨hexpr, _ | _⟩⟩ := h
        cases hname with
        | name _ hspan => exact ⟨name, _, _, rfl⟩
      · rintro ⟨name, place, expr, rfl⟩
        obtain _ | ⟨hname, _ | ⟨hexpr, _ | _⟩⟩ := h
        cases hname with
        | name _ hspan => exact ⟨name, _, _, rfl⟩
  | function => simp only [Form.Suits, ne_eq, ← List.length_eq_zero_iff, h.length_eq]

namespace Evaluator

variable {evaluate evaluate' : Evaluator} {scope scope' : ScopeId}

theorem same_all (hevaluate : Evaluator.Same c like evaluate evaluate')
    (hscope : w.scopes scope scope')
    {es es' : List Expr} (h : Expr.AllSame c w es es') :
    Action.Same c like w (Value.AllSame c) (all evaluate scope es) (all evaluate' scope' es') := by
  induction es generalizing w es' with
  | nil =>
      cases h with
      | nil => exact .pure fun _ _ => .nil
  | cons e es ih =>
      cases h with
      | cons he hes =>
          refine (hevaluate _ _ _ _ _ he hscope).bind fun w₁ value value' hw hvalue => ?_
          refine (ih (hw.scopes _ _ hscope) (hes.mono hw)).bind fun w₂ values values' hw' hvalues => ?_
          exact .pure fun w₃ hw'' => .cons (hvalue.mono (hw'.trans hw'')) (hvalues.mono hw'')

theorem same_last (hevaluate : Evaluator.Same c like evaluate evaluate')
    (hscope : w.scopes scope scope') {value value' : Value} (hvalue : Value.Same c w value value')
    {es es' : List Expr} (h : Expr.AllSame c w es es') :
    Action.Same c like w (Value.Same c) (last evaluate scope value es)
      (last evaluate' scope' value' es') := by
  induction es generalizing w es' value value' with
  | nil =>
      cases h with
      | nil => exact .pure fun _ hw => hvalue.mono hw
  | cons e es ih =>
      cases h with
      | cons he hes =>
          refine (hevaluate _ _ _ _ _ he hscope).bind fun w₁ value value' hw hvalue => ?_
          exact ih (hw.scopes _ _ hscope) hvalue (hes.mono hw)

theorem same_repeatWhile (hevaluate : Evaluator.Same c like evaluate evaluate')
    (hscope : w.scopes scope scope') {test test' body body' : Expr}
    (htest : Expr.Same c w test test') (hbody : Expr.Same c w body body') (rounds : Nat) :
    Action.Same c like w (Value.Same c) (repeatWhile evaluate scope test body rounds)
      (repeatWhile evaluate' scope' test' body' rounds) := by
  induction rounds generalizing w with
  | zero => exact .stop .unfinished
  | succ rounds ih =>
      refine (hevaluate _ _ _ _ _ htest hscope).bind fun w₁ answer answer' hw hanswer => ?_
      rw [hanswer.isTrue_eq]
      split
      · refine (hevaluate _ _ _ _ _ (hbody.mono hw) (hw.scopes _ _ hscope)).bind
          fun w₂ _ _ hw' _ => ?_
        have hle := hw.trans hw'
        exact ih (hle.scopes _ _ hscope) (htest.mono hle) (hbody.mono hle)
      · exact .pure fun _ _ => .boolean false

theorem same_parameterNames {es es' : List Expr} (h : Expr.AllSame c w es es') :
    Result.Same c Eq (parameterNames es) (parameterNames es') := by
  induction es generalizing es' with
  | nil =>
      cases h with
      | nil => exact .ok rfl
  | cons e es ih =>
      cases h with
      | @cons _ e' _ es' he hes =>
          cases he with
          | name text hspan =>
              have hrest := ih hes
              simp only [parameterNames]
              generalize parameterNames es = names, parameterNames es' = names' at hrest ⊢
              cases hrest with
              | ok heq => exact .ok (congrArg _ heq)
              | error hreason => exact .error hreason
          | hole => exact .error (.breakdown _)
          | literal hvalue hspan => exact .error (.mistake _ (.some hspan))
          | call hoperator harguments hspan => exact .error (.mistake _ (.some hspan))

theorem same_form (hlike : Likeness c like) (hevaluate : Evaluator.Same c like evaluate evaluate')
    (hscope : w.scopes scope scope') (rounds : Nat) (f : Form) {operands operands' : List Expr}
    (h : Expr.AllSame c w operands operands') {span span' : Span} (hspan : c.spans span span') :
    Action.Same c like w (Value.Same c) (form rounds evaluate scope f operands span)
      (form rounds evaluate' scope' f operands' span') := by
  cases f.use operands with
  | conditional test yes no =>
      obtain _ | ⟨htest, _ | ⟨hyes, _ | ⟨hno, _ | _⟩⟩⟩ := h
      rw [form_conditional, form_conditional]
      refine (hevaluate _ _ _ _ _ htest hscope).bind fun w₁ answer answer' hw hanswer => ?_
      rw [hanswer.isTrue_eq]
      split
      · exact hevaluate _ _ _ _ _ (hyes.mono hw) (hw.scopes _ _ hscope)
      · exact hevaluate _ _ _ _ _ (hno.mono hw) (hw.scopes _ _ hscope)
  | loop test body =>
      obtain _ | ⟨htest, _ | ⟨hbody, _ | _⟩⟩ := h
      rw [form_loop, form_loop]
      exact same_repeatWhile hevaluate hscope htest hbody rounds
  | sequence operands =>
      rw [form_sequence, form_sequence]
      exact same_last hevaluate hscope (.boolean false) h
  | define name place expr =>
      obtain _ | ⟨hname, _ | ⟨hexpr, _ | _⟩⟩ := h
      cases hname with
      | name text hplace =>
          rw [form_define, form_define]
          refine (hevaluate _ _ _ _ _ hexpr hscope).bind fun w₁ value value' hw hvalue => ?_
          refine (Action.Same.define hlike (hw.scopes _ _ hscope) name hvalue).bind
            fun w₂ _ _ hw' _ => ?_
          exact .pure fun w₃ hw'' => hvalue.mono (hw'.trans hw'')
  | function parameters body =>
      obtain ⟨parameters', body', rfl, hparameters, hbody⟩ :
          ∃ parameters' body', operands' = parameters' ++ [body'] ∧
            Expr.AllSame c w parameters parameters' ∧ Expr.Same c w body body' := by
        clear hspan
        induction parameters generalizing operands' with
        | nil =>
            obtain _ | ⟨hbody, _ | _⟩ := h
            exact ⟨[], _, rfl, .nil, hbody⟩
        | cons parameter parameters ih =>
            obtain _ | ⟨hparameter, hrest⟩ := h
            obtain ⟨parameters', body', rfl, hparameters, hbody⟩ := ih hrest
            exact ⟨_ :: parameters', body', rfl, .cons hparameter hparameters, hbody⟩
      rw [form_function, form_function]
      refine (Action.Same.ofExcept fun _ _ => same_parameterNames hparameters).bind
        fun w₁ names names' hw heq => ?_
      subst heq
      exact .close hlike names (hbody.mono hw) (hw.scopes _ _ hscope)
  | wrong hwrong =>
      have hwrong' := mt (f.suits_iff h).2 hwrong
      rw [form_misused rounds evaluate scope span hwrong,
        form_misused rounds evaluate' scope' span' hwrong', h.length_eq]
      exact .fail _ (.some hspan)

/-! ### Application and evaluation -/

theorem same_apply (hlike : Likeness c like)
    (hevaluate : Evaluator.Same c like evaluate evaluate') (limit : Nat)
    {place place' : Option Span} (hplace : Option.Rel c.spans place place') {callee callee' : Value}
    (hcallee : Value.Same c w callee callee') {arguments arguments' : List Value}
    (harguments : Value.AllSame c w arguments arguments') :
    Action.Same c like w (Value.Same c) (apply limit evaluate place callee arguments)
      (apply limit evaluate' place' callee' arguments') := by
  have hdisplay := hcallee.display_eq limit false
  have hkind := hcallee.kind_eq
  cases hcallee with
  | closure hid hbody hscope =>
      next parameters body body' scope scope' =>
      simp only [apply, ← harguments.length_eq]
      split
      · refine (Action.Same.create hlike hscope (.ofPairs parameters harguments)).bind
          fun w₁ inner inner' hw hinner => ?_
        exact hevaluate _ _ _ _ _ (hbody.mono hw) hinner
      · exact .fail _ hplace
  | builtin function hhome => exact function.same_apply hlike limit hplace harguments
  | _ =>
      simp only [apply, hdisplay]
      refine (Action.Same.ofBreakdown _).bind fun w₁ shown shown' hw heq => ?_
      subst heq
      exact .fail _ hplace

/-- Evaluation respects correspondences. -/
theorem same_eval (hlike : Likeness c like) (rounds depth : Nat) :
    Evaluator.Same c like (eval rounds depth) (eval rounds depth) := by
  induction depth with
  | zero => exact fun w _ _ _ _ _ _ => .stop (.breakdown _)
  | succ depth ih =>
      intro w expr expr' scope scope' hexpr hscope
      cases hexpr with
      | literal hvalue hspan => exact .pure fun _ hw => hvalue.mono hw
      | name text hspan => exact .lookup hlike hscope text hspan
      | hole => exact .fail _ .none
      | call hoperator harguments hspan =>
          simp only [eval, ← hoperator.form?_eq]
          split
          · next f _ => exact same_form hlike ih hscope rounds f harguments hspan
          · refine (ih _ _ _ _ _ hoperator hscope).bind fun w₁ callee callee' hw hcallee => ?_
            refine (same_all ih (hw.scopes _ _ hscope) (harguments.mono hw)).bind
              fun w₂ values values' hw' hvalues => ?_
            exact same_apply hlike ih depth (.some hspan) (hcallee.mono hw') hvalues

end Evaluator

end CallLang
