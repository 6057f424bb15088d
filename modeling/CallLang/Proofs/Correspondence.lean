/-
  CallLang/Proofs/Correspondence.lean
  ===================================
  **Stores that correspond.**

  Two runs of a program may number their scopes and closures differently, and yet
  do the same.  A `Correspondence` says which scopes and closures of one store
  stand for which of another; values, expressions and scopes are the same up to a
  correspondence, and two stores are the same if all scopes that stand for each
  other are.  What stands for nothing is of no account: it may belong to another
  part of the program.

  Nothing that programs can ask about a value depends on the numbers: values that
  are the same have one kind, one text and the same equals, and a name has the
  same value in scopes that stand for each other.
-/
import CallLang.Proofs.Scopes
import CallLang.Value.Display
import CallLang.Value.Equality
import Mathlib.Data.List.Forall2
import Mathlib.Order.Basic

namespace CallLang

/-! ### Correspondences -/

/-- Which scopes and closures of one store stand for which of another. -/
structure Correspondence where
  scopes : ScopeId → ScopeId → Prop
  closures : Nat → Nat → Prop

/-- How two runs are compared: which places in their texts stand for each other, and
    what has been printed before. -/
structure Comparison where
  spans : Span → Span → Prop
  told : Array String
  told' : Array String

/-- The comparison of runs of one text, each with nothing printed before. -/
def Comparison.strict : Comparison :=
  { spans := Eq, told := #[], told' := #[] }

/-- Where every place stands for itself, so does the place of a call, if it is known. -/
theorem Comparison.rel_place {c : Comparison} (hspans : ∀ span, c.spans span span)
    (place : Option Span) : Option.Rel c.spans place place := by
  cases place with
  | none => exact .none
  | some span => exact .some (hspans span)

namespace Correspondence

/-- One correspondence goes further than another. -/
structure Le (w w' : Correspondence) : Prop where
  scopes : ∀ id id', w.scopes id id' → w'.scopes id id'
  closures : ∀ id id', w.closures id id' → w'.closures id id'

theorem Le.refl (w : Correspondence) : w.Le w :=
  ⟨fun _ _ h => h, fun _ _ h => h⟩

theorem Le.trans {u v w : Correspondence} (huv : u.Le v) (hvw : v.Le w) : u.Le w :=
  ⟨fun id id' h => hvw.scopes id id' (huv.scopes id id' h),
    fun id id' h => hvw.closures id id' (huv.closures id id' h)⟩

def addScope (w : Correspondence) (id id' : ScopeId) : Correspondence :=
  { w with scopes := fun x y => w.scopes x y ∨ (x = id ∧ y = id') }

def addClosure (w : Correspondence) (id id' : Nat) : Correspondence :=
  { w with closures := fun x y => w.closures x y ∨ (x = id ∧ y = id') }

theorem le_addScope (w : Correspondence) (id id' : ScopeId) : w.Le (w.addScope id id') :=
  ⟨fun _ _ h => .inl h, fun _ _ h => h⟩

theorem le_addClosure (w : Correspondence) (id id' : Nat) : w.Le (w.addClosure id id') :=
  ⟨fun _ _ h => h, fun _ _ h => .inl h⟩

end Correspondence

/-- A relation between numbers in which none has two partners. -/
def Unambiguous (r : Nat → Nat → Prop) : Prop :=
  ∀ a b a' b', r a a' → r b b' → (a = b ↔ a' = b')

theorem Unambiguous.insert {r : Nat → Nat → Prop} {bound bound' : Nat} (h : Unambiguous r)
    (hbound : ∀ a a', r a a' → a < bound ∧ a' < bound') :
    Unambiguous fun x y => r x y ∨ (x = bound ∧ y = bound') := by
  rintro a b a' b' (ha | ⟨rfl, rfl⟩) (hb | ⟨rfl, rfl⟩)
  · exact h a b a' b' ha hb
  · have := hbound a a' ha
    omega
  · have := hbound b b' hb
    omega
  · simp

/-! ### Sameness -/

section

variable (c : Comparison) (w : Correspondence)

mutual

/-- Whether two values are the same up to a correspondence. -/
inductive Value.Same : Value → Value → Prop where
  | number (n : Number) : Value.Same (.number n) (.number n)
  | string (text : String) : Value.Same (.string text) (.string text)
  | boolean (b : Bool) : Value.Same (.boolean b) (.boolean b)
  | array {items items' : List Value} (hitems : Value.AllSame items items') :
      Value.Same (.array items) (.array items')
  | closure {id id' : Nat} {parameters : List String} {body body' : Expr} {scope scope' : ScopeId}
      (hid : w.closures id id') (hbody : Expr.Same body body') (hscope : w.scopes scope scope') :
      Value.Same (.closure id parameters body scope) (.closure id' parameters body' scope')
  | builtin (function : Builtin) {home home' : ScopeId} (hhome : w.scopes home home') :
      Value.Same (.builtin function home) (.builtin function home')

inductive Value.AllSame : List Value → List Value → Prop where
  | nil : Value.AllSame [] []
  | cons {a a' : Value} {as as' : List Value} (ha : Value.Same a a')
      (has : Value.AllSame as as') : Value.AllSame (a :: as) (a' :: as')

/-- Whether two expressions are the same up to a correspondence and to places that stand
    for each other. -/
inductive Expr.Same : Expr → Expr → Prop where
  | literal {value value' : Value} {span span' : Span} (hvalue : Value.Same value value')
      (hspan : c.spans span span') : Expr.Same (.literal value span) (.literal value' span')
  | name (text : String) {span span' : Span} (hspan : c.spans span span') :
      Expr.Same (.name text span) (.name text span')
  | call {operator operator' : Expr} {arguments arguments' : List Expr} {span span' : Span}
      (hoperator : Expr.Same operator operator') (harguments : Expr.AllSame arguments arguments')
      (hspan : c.spans span span') :
      Expr.Same (.call operator arguments span) (.call operator' arguments' span')
  | hole : Expr.Same .hole .hole

inductive Expr.AllSame : List Expr → List Expr → Prop where
  | nil : Expr.AllSame [] []
  | cons {e e' : Expr} {es es' : List Expr} (he : Expr.Same e e') (hes : Expr.AllSame es es') :
      Expr.AllSame (e :: es) (e' :: es')

end

/-- Whether two scopes bind the same names in the same order to the same values. -/
def Bindings.Same (bindings bindings' : Bindings) : Prop :=
  List.Forall₂ (fun entry entry' => entry.1 = entry'.1 ∧ Value.Same c w entry.2 entry'.2)
    bindings bindings'

/-- Whether two scopes are the same, and so are the scopes around them. -/
structure Scope.Same (scope scope' : Scope) : Prop where
  parent : Option.Rel w.scopes scope.parent scope'.parent
  bindings : Bindings.Same c w scope.bindings scope'.bindings

/-- Whether a scope of one store is the same as one of another, and both come after their
    parents. -/
def Store.SameAt (store store' : Store) (id id' : ScopeId) : Prop :=
  ∃ scope scope', store.scopes[id]? = some scope ∧ store'.scopes[id']? = some scope' ∧
    Scope.Same c w scope scope' ∧ (∀ parent ∈ scope.parent, parent < id) ∧
    ∀ parent ∈ scope'.parent, parent < id'

/-- Whether two stores are the same.  Their scopes that stand for each other are the same
    and come after their parents, no number stands for two, and both have printed the
    same in the meantime. -/
structure Store.Same (store store' : Store) : Prop where
  scopes : ∀ id id', w.scopes id id' → ∃ scope scope',
    store.scopes[id]? = some scope ∧ store'.scopes[id']? = some scope' ∧
      Scope.Same c w scope scope' ∧ (∀ parent ∈ scope.parent, parent < id) ∧
      ∀ parent ∈ scope'.parent, parent < id'
  closures : ∀ id id', w.closures id id' → id < store.closures ∧ id' < store'.closures
  scopesUnambiguous : Unambiguous w.scopes
  closuresUnambiguous : Unambiguous w.closures
  printed : ∃ since, store.printed = c.told ++ since ∧ store'.printed = c.told' ++ since

/-- Whether work has stopped for the same reason at places that stand for each other. -/
inductive Stop.Same : Stop → Stop → Prop where
  | mistake (cause : Mistake) {span span' : Option Span} (hspan : Option.Rel c.spans span span') :
      Stop.Same (.mistake cause span) (.mistake cause span')
  | breakdown (cause : Breakdown) : Stop.Same (.breakdown cause) (.breakdown cause)
  | unfinished : Stop.Same .unfinished .unfinished

end

/-! ### Going further -/

section

variable {c c' : Comparison} {w w' : Correspondence}

mutual

theorem Value.Same.map (hspans : c.spans ≤ c'.spans) (hle : w.Le w') {a a' : Value}
    (h : Value.Same c w a a') : Value.Same c' w' a a' :=
  match h with
  | .number n => .number n
  | .string text => .string text
  | .boolean b => .boolean b
  | .array hitems => .array (hitems.map hspans hle)
  | .closure hid hbody hscope =>
    .closure (hle.closures _ _ hid) (hbody.map hspans hle) (hle.scopes _ _ hscope)
  | .builtin function hhome => .builtin function (hle.scopes _ _ hhome)

theorem Value.AllSame.map (hspans : c.spans ≤ c'.spans) (hle : w.Le w') {as as' : List Value}
    (h : Value.AllSame c w as as') : Value.AllSame c' w' as as' :=
  match h with
  | .nil => .nil
  | .cons ha has => .cons (ha.map hspans hle) (has.map hspans hle)

theorem Expr.Same.map (hspans : c.spans ≤ c'.spans) (hle : w.Le w') {e e' : Expr}
    (h : Expr.Same c w e e') : Expr.Same c' w' e e' :=
  match h with
  | .literal hvalue hspan => .literal (hvalue.map hspans hle) (hspans _ _ hspan)
  | .name text hspan => .name text (hspans _ _ hspan)
  | .call hoperator harguments hspan =>
    .call (hoperator.map hspans hle) (harguments.map hspans hle) (hspans _ _ hspan)
  | .hole => .hole

theorem Expr.AllSame.map (hspans : c.spans ≤ c'.spans) (hle : w.Le w') {es es' : List Expr}
    (h : Expr.AllSame c w es es') : Expr.AllSame c' w' es es' :=
  match h with
  | .nil => .nil
  | .cons he hes => .cons (he.map hspans hle) (hes.map hspans hle)

end

theorem Value.Same.mono (hle : w.Le w') {a a' : Value} (h : Value.Same c w a a') :
    Value.Same c w' a a' :=
  h.map le_rfl hle

theorem Value.AllSame.mono (hle : w.Le w') {as as' : List Value} (h : Value.AllSame c w as as') :
    Value.AllSame c w' as as' :=
  h.map le_rfl hle

theorem Expr.Same.mono (hle : w.Le w') {e e' : Expr} (h : Expr.Same c w e e') :
    Expr.Same c w' e e' :=
  h.map le_rfl hle

theorem Expr.AllSame.mono (hle : w.Le w') {es es' : List Expr} (h : Expr.AllSame c w es es') :
    Expr.AllSame c w' es es' :=
  h.map le_rfl hle

theorem Correspondence.Le.parent (hle : w.Le w') {parent parent' : Option ScopeId}
    (h : Option.Rel w.scopes parent parent') : Option.Rel w'.scopes parent parent' := by
  cases h with
  | none => exact .none
  | some h => exact .some (hle.scopes _ _ h)

theorem Bindings.Same.map (hspans : c.spans ≤ c'.spans) (hle : w.Le w') {bindings bindings' : Bindings}
    (h : Bindings.Same c w bindings bindings') : Bindings.Same c' w' bindings bindings' :=
  List.Forall₂.imp (fun _ _ hentry => ⟨hentry.1, hentry.2.map hspans hle⟩) h

theorem Bindings.Same.mono (hle : w.Le w') {bindings bindings' : Bindings}
    (h : Bindings.Same c w bindings bindings') : Bindings.Same c w' bindings bindings' :=
  h.map le_rfl hle

theorem Scope.Same.map (hspans : c.spans ≤ c'.spans) (hle : w.Le w') {scope scope' : Scope}
    (h : Scope.Same c w scope scope') : Scope.Same c' w' scope scope' :=
  ⟨hle.parent h.parent, h.bindings.map hspans hle⟩

theorem Scope.Same.mono (hle : w.Le w') {scope scope' : Scope} (h : Scope.Same c w scope scope') :
    Scope.Same c w' scope scope' :=
  h.map le_rfl hle

/-- Stores stay the same where more places stand for each other, and when something else is taken
    to have been printed. -/
theorem Store.Same.map (hspans : c.spans ≤ c'.spans) {store store' : Store}
    (h : Store.Same c w store store') {printed printed' : Array String}
    (hprinted : ∃ since, printed = c'.told ++ since ∧ printed' = c'.told' ++ since) :
    Store.Same c' w { store with printed } { store' with printed := printed' } where
  scopes := by
    intro id id' hid
    obtain ⟨scope, scope', hscope, hscope', hsame, horder⟩ := h.scopes id id' hid
    exact ⟨scope, scope', hscope, hscope', hsame.map hspans (.refl w), horder⟩
  closures := h.closures
  scopesUnambiguous := h.scopesUnambiguous
  closuresUnambiguous := h.closuresUnambiguous
  printed := hprinted

theorem Stop.Same.map (hspans : c.spans ≤ c'.spans) {reason reason' : Stop}
    (h : Stop.Same c reason reason') : Stop.Same c' reason reason' := by
  cases h with
  | mistake cause hspan =>
      cases hspan with
      | none => exact .mistake cause .none
      | some hspan => exact .mistake cause (.some (hspans _ _ hspan))
  | breakdown cause => exact .breakdown cause
  | unfinished => exact .unfinished

/-- Where runs of one text are compared, the same reasons to stop are equal. -/
theorem Stop.Same.eq {reason reason' : Stop} (h : Stop.Same .strict reason reason') :
    reason = reason' := by
  cases h with
  | mistake cause hspan =>
      cases hspan with
      | none => rfl
      | some heq =>
          obtain rfl := heq
          rfl
  | breakdown cause => rfl
  | unfinished => rfl

theorem Value.AllSame.length_eq {as as' : List Value} (h : Value.AllSame c w as as') :
    as.length = as'.length := by
  induction as generalizing as' with
  | nil =>
      cases h with
      | nil => rfl
  | cons a as ih =>
      cases h with
      | cons ha has => simp [ih has]

theorem Expr.AllSame.length_eq {es es' : List Expr} (h : Expr.AllSame c w es es') :
    es.length = es'.length := by
  induction es generalizing es' with
  | nil =>
      cases h with
      | nil => rfl
  | cons e es ih =>
      cases h with
      | cons he hes => simp [ih hes]

theorem Value.AllSame.getElem? {as as' : List Value} (h : Value.AllSame c w as as') (i : Nat) :
    Option.Rel (Value.Same c w) as[i]? as'[i]? := by
  induction as generalizing as' i with
  | nil =>
      cases h with
      | nil => exact .none
  | cons a as ih =>
      cases h with
      | cons ha has =>
          cases i with
          | zero => exact .some ha
          | succ i => exact ih has i

theorem Expr.AllSame.append {es es' fs fs' : List Expr} (hes : Expr.AllSame c w es es')
    (hfs : Expr.AllSame c w fs fs') : Expr.AllSame c w (es ++ fs) (es' ++ fs') := by
  induction es generalizing es' with
  | nil =>
      cases hes with
      | nil => exact hfs
  | cons e es ih =>
      cases hes with
      | cons he hes => exact .cons he (ih hes)

/-! ### What can be asked about values -/

theorem Value.Same.kind_eq {a a' : Value} (h : Value.Same c w a a') : a.kind = a'.kind := by
  cases h <;> rfl

theorem Value.Same.isTrue_eq {a a' : Value} (h : Value.Same c w a a') : a.isTrue = a'.isTrue := by
  cases h <;> rfl

theorem Value.Same.display_eq {a a' : Value} (h : Value.Same c w a a') (limit : Nat)
    (nested : Bool) : a.display limit nested = a'.display limit nested := by
  induction limit generalizing a a' nested with
  | zero => rfl
  | succ limit ih =>
      cases h with
      | array hitems =>
          next items items' =>
          have htexts : items.mapM (Value.display limit true) =
              items'.mapM (Value.display limit true) := by
            induction items generalizing items' with
            | nil =>
                cases hitems with
                | nil => rfl
            | cons a items ihitems =>
                cases hitems with
                | cons ha hitems => rw [List.mapM_cons, List.mapM_cons, ih ha, ihitems hitems]
          simp only [Value.display, htexts]
      | _ => rfl

theorem Value.Same.equal_eq (hscopes : Unambiguous w.scopes) (hclosures : Unambiguous w.closures)
    {a a' b b' : Value} (ha : Value.Same c w a a') (hb : Value.Same c w b b') (limit : Nat) :
    a.equal limit b = a'.equal limit b' := by
  induction limit generalizing a a' b b' with
  | zero => rfl
  | succ limit ih =>
      have hall : ∀ {as as' bs bs' : List Value}, Value.AllSame c w as as' →
          Value.AllSame c w bs bs' → Value.allEqual (Value.equal limit) as bs =
            Value.allEqual (Value.equal limit) as' bs' := by
        intro as as' bs bs' has hbs
        induction as generalizing as' bs bs' with
        | nil =>
            cases has with
            | nil => cases hbs <;> rfl
        | cons x as ihas =>
            cases has with
            | cons hx has =>
                cases hbs with
                | nil => rfl
                | cons hy hbs => simp only [Value.allEqual, ih hx hy, ihas has hbs]
      cases ha with
      | array has =>
          cases hb with
          | array hbs => simp only [Value.equal, has.length_eq, hbs.length_eq, hall has hbs]
          | _ => rfl
      | closure hid hbody hscope =>
          cases hb with
          | closure hid' hbody' hscope' =>
              have hiff := hclosures _ _ _ _ hid hid'
              simp only [Value.equal, beq_eq_decide, hiff]
          | _ => rfl
      | builtin f hhome =>
          cases hb with
          | builtin g hhome' =>
              have hiff := hscopes _ _ _ _ hhome hhome'
              simp only [Value.equal, beq_eq_decide, hiff]
          | _ => rfl
      | _ => cases hb <;> rfl

/-! ### What can be asked about names -/

theorem Bindings.Same.get? {bindings bindings' : Bindings} (h : Bindings.Same c w bindings bindings')
    (name : String) :
    Option.Rel (Value.Same c w) (bindings.get? name) (bindings'.get? name) := by
  induction h with
  | nil => exact .none
  | cons hentry hrest ih =>
      next entry entry' rest rest' =>
      obtain ⟨key, value⟩ := entry
      obtain ⟨key', value'⟩ := entry'
      obtain ⟨rfl, hvalue⟩ := hentry
      rw [Table.get?_cons, Table.get?_cons]
      by_cases hname : name = key
      · rw [if_pos hname, if_pos hname]
        exact .some hvalue
      · rw [if_neg hname, if_neg hname]
        exact ih

theorem Bindings.Same.set {bindings bindings' : Bindings} (h : Bindings.Same c w bindings bindings')
    (name : String) {value value' : Value} (hvalue : Value.Same c w value value') :
    Bindings.Same c w (bindings.set name value) (bindings'.set name value') := by
  induction h with
  | nil => exact .cons ⟨rfl, hvalue⟩ .nil
  | cons hentry hrest ih =>
      next entry entry' rest rest' =>
      obtain ⟨key, old⟩ := entry
      obtain ⟨key', old'⟩ := entry'
      obtain ⟨rfl, hold⟩ := hentry
      simp only [Table.set]
      by_cases hkey : key = name
      · rw [if_pos hkey, if_pos hkey]
        exact .cons ⟨rfl, hvalue⟩ hrest
      · rw [if_neg hkey, if_neg hkey]
        exact .cons ⟨rfl, hold⟩ ih

/-- Global scopes that stand for each other start with the same bindings. -/
theorem Bindings.same_globals {home home' : ScopeId} (hhome : w.scopes home home') :
    Bindings.Same c w (Store.globalBindings home) (Store.globalBindings home') := by
  refine .cons ⟨rfl, .boolean true⟩ (.cons ⟨rfl, .boolean false⟩ ?_)
  induction Builtin.all with
  | nil => exact .nil
  | cons function rest ih => exact .cons ⟨rfl, .builtin function hhome⟩ ih

/-- The bindings of a new scope for a call. -/
theorem Bindings.Same.ofPairs (parameters : List String) {arguments arguments' : List Value}
    (h : Value.AllSame c w arguments arguments') :
    Bindings.Same c w (Table.ofPairs (parameters.zip arguments))
      (Table.ofPairs (parameters.zip arguments')) := by
  have hfold : ∀ (bindings bindings' : Bindings), Bindings.Same c w bindings bindings' →
      Bindings.Same c w
        ((parameters.zip arguments).foldl (fun table (name, value) => table.set name value) bindings)
        ((parameters.zip arguments').foldl (fun table (name, value) => table.set name value)
          bindings') := by
    induction parameters generalizing arguments arguments' with
    | nil => exact fun _ _ hbindings => hbindings
    | cons parameter parameters ih =>
        intro bindings bindings' hbindings
        cases h with
        | nil => exact hbindings
        | cons ha has => exact ih has _ _ (hbindings.set parameter ha)
  exact hfold [] [] .nil

theorem rel_or {α β : Type} {r : α → β → Prop} {a b : Option α} {a' b' : Option β}
    (h : Option.Rel r a a') (h' : Option.Rel r b b') : Option.Rel r (a.or b) (a'.or b') := by
  cases h with
  | some h => exact .some h
  | none => exact h'

/-- What a name has in a scope is what the scope binds it to, or else what it has in the scope
    around. -/
theorem Store.find?_of_scope {store : Store} {id : ScopeId} {scope : Scope}
    (hscope : store.scopes[id]? = some scope) (name : String) (reach : Nat) :
    store.find? name (reach + 1) id =
      (scope.bindings.get? name).or (scope.parent.bind (store.find? name reach)) := by
  simp only [Store.find?, hscope]
  cases scope.bindings.get? name with
  | some value => rfl
  | none => cases scope.parent <;> rfl

/-- If a name has the same value in the scopes around, it does not matter how far a search reaches,
    as long as it may go through all scopes that come before. -/
theorem Store.rel_find?_parent {store store' : Store} {name : String} {id id' reach reach' : Nat}
    (hreach : id ≤ reach) (hreach' : id' ≤ reach') {parent parent' : Option ScopeId}
    (hparents : Option.Rel w.scopes parent parent') (hparent : ∀ outer ∈ parent, outer < id)
    (hparent' : ∀ outer' ∈ parent', outer' < id')
    (ih : ∀ outer < id, ∀ outer', w.scopes outer outer' → ∀ {reach reach'}, outer < reach →
      outer' < reach' →
      Option.Rel (Value.Same c w) (store.find? name reach outer)
        (store'.find? name reach' outer')) :
    Option.Rel (Value.Same c w) (parent.bind (store.find? name reach))
      (parent'.bind (store'.find? name reach')) := by
  cases hparents with
  | none => exact .none
  | some houter =>
      have hbefore := hparent _ rfl
      have hbefore' := hparent' _ rfl
      exact ih _ hbefore _ houter (Nat.lt_of_lt_of_le hbefore hreach)
        (Nat.lt_of_lt_of_le hbefore' hreach')

namespace Store.SameAt

variable {store store' : Store} {id id' : ScopeId}

theorem mono (hle : w.Le w') (h : Store.SameAt c w store store' id id') :
    Store.SameAt c w' store store' id id' := by
  obtain ⟨scope, scope', hscope, hscope', hsame, horder⟩ := h
  exact ⟨scope, scope', hscope, hscope', hsame.mono hle, horder⟩

theorem lt (h : Store.SameAt c w store store' id id') :
    id < store.scopes.size ∧ id' < store'.scopes.size := by
  obtain ⟨scope, scope', hscope, hscope', -⟩ := h
  exact ⟨(Array.getElem?_eq_some_iff.1 hscope).1, (Array.getElem?_eq_some_iff.1 hscope').1⟩

theorem find? (h : Store.SameAt c w store store' id id') {name : String} {reach reach' : Nat}
    (hreach : id < reach) (hreach' : id' < reach')
    (ih : ∀ outer < id, ∀ outer', w.scopes outer outer' → ∀ {reach reach'}, outer < reach →
      outer' < reach' →
      Option.Rel (Value.Same c w) (store.find? name reach outer)
        (store'.find? name reach' outer')) :
    Option.Rel (Value.Same c w) (store.find? name reach id) (store'.find? name reach' id') := by
  obtain ⟨reach, rfl⟩ := Nat.exists_eq_add_one.2 (Nat.zero_lt_of_lt hreach)
  obtain ⟨reach', rfl⟩ := Nat.exists_eq_add_one.2 (Nat.zero_lt_of_lt hreach')
  obtain ⟨scope, scope', hscope, hscope', hsame, hparent, hparent'⟩ := h
  rw [find?_of_scope hscope, find?_of_scope hscope']
  exact rel_or (hsame.bindings.get? name) (rel_find?_parent (Nat.le_of_lt_succ hreach)
    (Nat.le_of_lt_succ hreach') hsame.parent hparent hparent' ih)

end Store.SameAt

namespace Store.Same

variable {store store' : Store}

theorem lt (h : Store.Same c w store store') {id id' : ScopeId} (hid : w.scopes id id') :
    id < store.scopes.size ∧ id' < store'.scopes.size :=
  SameAt.lt (h.scopes id id' hid)

theorem lookup? (h : Store.Same c w store store') (name : String) {id id' : ScopeId}
    (hid : w.scopes id id') :
    Option.Rel (Value.Same c w) (store.lookup? id name) (store'.lookup? id' name) := by
  have hfind : ∀ {reach reach'}, id < reach → id' < reach' →
      Option.Rel (Value.Same c w) (store.find? name reach id) (store'.find? name reach' id') := by
    -- the induction is on the number of the scope: all scopes around it come before
    induction id using Nat.strongRecOn generalizing id' with
    | ind id ih =>
        intro reach reach' hreach hreach'
        exact SameAt.find? (h.scopes id id' hid) hreach hreach' fun outer hbefore outer' houter =>
          ih outer hbefore houter
  exact hfind (h.lt hid).1 (h.lt hid).2

end Store.Same

end

end CallLang
