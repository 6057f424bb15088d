/-
  CallLang/Proofs/Vocabularies.lean
  =================================
  **The same by other names.**

  Two runs may call things by different names, and yet do the same.  A `Vocabulary` says
  which names of one run stand for which of the other, and what the outermost scope of
  the other binds besides, to names that stand for none.  Values, trees and stores are
  translations of each other if they differ in nothing but that: scopes and closures
  have the same numbers in both runs.

  Nothing that programs can ask about a value depends on names, and a name has a value
  if what it stands for has one, its translation.  Only texts tell names apart, for a
  function shows its parameters.
-/
import CallLang.Proofs.Correspondence

namespace CallLang

/-- Which names of one run stand for which of another, and what the outermost scope of the
    other run binds besides. -/
structure Vocabulary where
  names : String → String → Prop
  unambiguous : ∀ {x y x' y'}, names x x' → names y y' → (x = y ↔ x' = y')
  hidden : Bindings
  unseen : ∀ {x x'}, names x x' → hidden.get? x' = none

/-- What a scope of the other run binds besides. -/
def Vocabulary.hiddenIn (t : Vocabulary) (id : ScopeId) : Bindings :=
  if id = 0 then t.hidden else []

section

variable (t : Vocabulary)

mutual

/-- Whether a value is the translation of another. -/
inductive Value.Translated : Value → Value → Prop where
  | number (n : Number) : Value.Translated (.number n) (.number n)
  | string (text : String) : Value.Translated (.string text) (.string text)
  | boolean (b : Bool) : Value.Translated (.boolean b) (.boolean b)
  | array {items items' : List Value} (hitems : Value.AllTranslated items items') :
      Value.Translated (.array items) (.array items')
  | closure (id : Nat) (scope : ScopeId) {parameters parameters' : List String} {body body' : Expr}
      (hparameters : List.Forall₂ t.names parameters parameters')
      (hbody : Expr.Translated body body') :
      Value.Translated (.closure id parameters body scope) (.closure id parameters' body' scope)
  | builtin (function : Builtin) (home : ScopeId) :
      Value.Translated (.builtin function home) (.builtin function home)

inductive Value.AllTranslated : List Value → List Value → Prop where
  | nil : Value.AllTranslated [] []
  | cons {a a' : Value} {as as' : List Value} (ha : Value.Translated a a')
      (has : Value.AllTranslated as as') : Value.AllTranslated (a :: as) (a' :: as')

/-- Whether a tree is the translation of another.  The word of a form is no name and is not
    translated. -/
inductive Expr.Translated : Expr → Expr → Prop where
  | literal {value value' : Value} (hvalue : Value.Translated value value') (span : Span) :
      Expr.Translated (.literal value span) (.literal value' span)
  | name {text text' : String} (hname : t.names text text') (span : Span) :
      Expr.Translated (.name text span) (.name text' span)
  | form {operator : Expr} {f : Form} (hform : operator.form? = some f)
      {operands operands' : List Expr} (hoperands : Expr.AllTranslated operands operands')
      (span : Span) :
      Expr.Translated (.call operator operands span) (.call operator operands' span)
  | call {operator operator' : Expr} (hform : operator.form? = none)
      (hform' : operator'.form? = none) (hoperator : Expr.Translated operator operator')
      {arguments arguments' : List Expr} (harguments : Expr.AllTranslated arguments arguments')
      (span : Span) :
      Expr.Translated (.call operator arguments span) (.call operator' arguments' span)
  | hole : Expr.Translated .hole .hole

inductive Expr.AllTranslated : List Expr → List Expr → Prop where
  | nil : Expr.AllTranslated [] []
  | cons {e e' : Expr} {es es' : List Expr} (he : Expr.Translated e e')
      (hes : Expr.AllTranslated es es') : Expr.AllTranslated (e :: es) (e' :: es')

end

/-- Whether scopes bind names that stand for each other, in the same order, to translations. -/
def Bindings.Translated (bindings bindings' : Bindings) : Prop :=
  List.Forall₂ (fun entry entry' => t.names entry.1 entry'.1 ∧
    Value.Translated t entry.2 entry'.2) bindings bindings'

/-- Whether a scope is the translation of another, apart from what is hidden in it. -/
structure Scope.Translated (id : ScopeId) (scope scope' : Scope) : Prop where
  parent : scope'.parent = scope.parent
  bindings : ∃ seen, Bindings.Translated t scope.bindings seen ∧
    scope'.bindings = seen ++ t.hiddenIn id

/-- Whether texts show a value and its translation. -/
def Told (text text' : String) : Prop :=
  ∃ limit value value', Value.Translated t value value' ∧
    Value.display limit false value = .ok text ∧ Value.display limit false value' = .ok text'

/-- Whether a store is the translation of another.  Both have printed values that are translations
    of each other. -/
structure Store.Translated (store store' : Store) : Prop where
  globals : 0 < store.scopes.size
  size : store'.scopes.size = store.scopes.size
  closures : store'.closures = store.closures
  scopes : ∀ id, Option.Rel (Scope.Translated t id) store.scopes[id]? store'.scopes[id]?
  printed : List.Forall₂ (Told t) store.printed.toList store'.printed.toList

/-- Whether mistakes are the same, but for the names that they mention and the values that they
    show. -/
inductive Mistake.Translated : Mistake → Mistake → Prop where
  | same (cause : Mistake) : Mistake.Translated cause cause
  | unbound {name name' : String} (h : t.names name name') :
      Mistake.Translated (.unbound name) (.unbound name')
  | argumentCount {parameters parameters' : List String}
      (h : List.Forall₂ t.names parameters parameters') (expected got : Nat) :
      Mistake.Translated (.argumentCount (Value.signature parameters) expected got)
        (.argumentCount (Value.signature parameters') expected got)
  | notFunction (kind : Kind) {shown shown' : String} (h : Told t shown shown') :
      Mistake.Translated (.notFunction kind shown) (.notFunction kind shown')

/-- Whether work has stopped for reasons that are translations of each other, at one place. -/
inductive Stop.Translated : Stop → Stop → Prop where
  | mistake {cause cause' : Mistake} (h : Mistake.Translated t cause cause')
      (span : Option Span) : Stop.Translated (.mistake cause span) (.mistake cause' span)
  | breakdown (cause : Breakdown) : Stop.Translated (.breakdown cause) (.breakdown cause)
  | unfinished : Stop.Translated .unfinished .unfinished

end

variable {t : Vocabulary}

theorem Value.AllTranslated.length_eq {as as' : List Value} (h : Value.AllTranslated t as as') :
    as'.length = as.length := by
  induction as generalizing as' with
  | nil =>
      cases h
      rfl
  | cons a as ih =>
      obtain _ | ⟨-, has⟩ := h
      rw [List.length_cons, List.length_cons, ih has]

theorem Expr.AllTranslated.length_eq {es es' : List Expr} (h : Expr.AllTranslated t es es') :
    es'.length = es.length := by
  induction es generalizing es' with
  | nil =>
      cases h
      rfl
  | cons e es ih =>
      obtain _ | ⟨-, hes⟩ := h
      rw [List.length_cons, List.length_cons, ih hes]

theorem Value.AllTranslated.getElem? {as as' : List Value} (h : Value.AllTranslated t as as')
    (i : Nat) : Option.Rel (Value.Translated t) as[i]? as'[i]? := by
  induction as generalizing as' i with
  | nil =>
      cases h
      exact .none
  | cons a as ih =>
      obtain _ | ⟨ha, has⟩ := h
      cases i with
      | zero => exact .some ha
      | succ i => exact ih has i

/-- What precedes the last expressions and these themselves have their translations apart. -/
theorem Expr.AllTranslated.exists_append {es fs gs : List Expr}
    (h : Expr.AllTranslated t (es ++ fs) gs) :
    ∃ es' fs', gs = es' ++ fs' ∧ Expr.AllTranslated t es es' ∧ Expr.AllTranslated t fs fs' := by
  induction es generalizing gs with
  | nil => exact ⟨[], gs, rfl, .nil, h⟩
  | cons e es ih =>
      obtain _ | ⟨he, hrest⟩ := h
      obtain ⟨es', fs', rfl, hes, hfs⟩ := ih hrest
      exact ⟨_ :: es', fs', rfl, .cons he hes, hfs⟩

/-! ### What can be asked about values -/

namespace Value.Translated

variable {a a' b b' : Value}

theorem kind_eq (h : Value.Translated t a a') : a'.kind = a.kind := by
  cases h <;> rfl

theorem isTrue_eq (h : Value.Translated t a a') : a'.isTrue = a.isTrue := by
  cases h <;> rfl

theorem equal_eq (ha : Value.Translated t a a') (hb : Value.Translated t b b') (limit : Nat) :
    a'.equal limit b' = a.equal limit b := by
  induction limit generalizing a a' b b' with
  | zero => rfl
  | succ limit ih =>
      have hall : ∀ {as as' bs bs' : List Value}, Value.AllTranslated t as as' →
          Value.AllTranslated t bs bs' → Value.allEqual (Value.equal limit) as' bs' =
            Value.allEqual (Value.equal limit) as bs := by
        intro as as' bs bs' has hbs
        induction as generalizing as' bs bs' with
        | nil =>
            cases has
            cases hbs <;> rfl
        | cons x as ihas =>
            obtain _ | ⟨hx, has⟩ := has
            cases hbs with
            | nil => rfl
            | cons hy hbs => simp only [Value.allEqual, ih hx hy, ihas has hbs]
      cases ha with
      | array has =>
          cases hb with
          | array hbs => simp only [Value.equal, has.length_eq, hbs.length_eq, hall has hbs]
          | _ => rfl
      | _ => cases hb <;> rfl

/-- A value and its translation both can be shown, or fail to be for the same cause. -/
theorem display (h : Value.Translated t a a') (limit : Nat) (nested : Bool) :
    (∃ text text', a.display limit nested = .ok text ∧ a'.display limit nested = .ok text') ∨
      ∃ cause, a.display limit nested = .error cause ∧ a'.display limit nested = .error cause := by
  induction limit generalizing a a' nested with
  | zero => exact .inr ⟨_, rfl, rfl⟩
  | succ limit ih =>
      cases h with
      | number n =>
          simp only [Value.display]
          cases n.display with
          | ok text => exact .inl ⟨text, text, rfl, rfl⟩
          | error cause => exact .inr ⟨cause, rfl, rfl⟩
      | @array items items' hitems =>
          have hall : (∃ texts texts', items.mapM (Value.display limit true) = .ok texts ∧
              items'.mapM (Value.display limit true) = .ok texts') ∨
              ∃ cause, items.mapM (Value.display limit true) = .error cause ∧
                items'.mapM (Value.display limit true) = .error cause := by
            induction items generalizing items' with
            | nil =>
                cases hitems
                exact .inl ⟨[], [], rfl, rfl⟩
            | cons a items ihitems =>
                obtain _ | ⟨ha, hitems⟩ := hitems
                simp only [List.mapM_cons]
                rcases ih ha true with ⟨text, text', htext, htext'⟩ | ⟨cause, hcause, hcause'⟩
                · rcases ihitems hitems with ⟨texts, texts', htexts, htexts'⟩ | ⟨cause, hcause, hcause'⟩
                  · exact .inl ⟨text :: texts, text' :: texts', by rw [htext, htexts]; rfl,
                      by rw [htext', htexts']; rfl⟩
                  · exact .inr ⟨cause, by rw [htext, hcause]; rfl, by rw [htext', hcause']; rfl⟩
                · exact .inr ⟨cause, by rw [hcause]; rfl, by rw [hcause']; rfl⟩
          simp only [Value.display]
          rcases hall with ⟨texts, texts', htexts, htexts'⟩ | ⟨cause, hcause, hcause'⟩
          · exact .inl ⟨_, _, by rw [htexts]; rfl, by rw [htexts']; rfl⟩
          · exact .inr ⟨cause, by rw [hcause]; rfl, by rw [hcause']; rfl⟩
      | _ => exact .inl ⟨_, _, rfl, rfl⟩

end Value.Translated

/-! ### What can be asked about names -/

namespace Bindings.Translated

variable {bindings bindings' : Bindings} {name name' : String}

theorem get? (h : Bindings.Translated t bindings bindings') (hname : t.names name name') :
    Option.Rel (Value.Translated t) (bindings.get? name) (bindings'.get? name') := by
  induction h with
  | nil => exact .none
  | @cons entry entry' rest rest' hentry hrest ih =>
      obtain ⟨key, value⟩ := entry
      obtain ⟨key', value'⟩ := entry'
      obtain ⟨hkey, hvalue⟩ := hentry
      rw [Table.get?_cons, Table.get?_cons]
      by_cases heq : name = key
      · rw [if_pos heq, if_pos ((t.unambiguous hname hkey).1 heq)]
        exact .some hvalue
      · rw [if_neg heq, if_neg (mt (t.unambiguous hname hkey).2 heq)]
        exact ih

theorem set (h : Bindings.Translated t bindings bindings') (hname : t.names name name')
    {value value' : Value} (hvalue : Value.Translated t value value') :
    Bindings.Translated t (bindings.set name value) (bindings'.set name' value') := by
  induction h with
  | nil => exact .cons ⟨hname, hvalue⟩ .nil
  | @cons entry entry' rest rest' hentry hrest ih =>
      obtain ⟨key, old⟩ := entry
      obtain ⟨key', old'⟩ := entry'
      obtain ⟨hkey, hold⟩ := hentry
      simp only [Table.set]
      by_cases heq : key = name
      · rw [if_pos heq, if_pos ((t.unambiguous hkey hname).1 heq)]
        exact .cons ⟨hname, hvalue⟩ hrest
      · rw [if_neg heq, if_neg (mt (t.unambiguous hkey hname).2 heq)]
        exact .cons ⟨hkey, hold⟩ ih

/-- The bindings of a new scope for a call. -/
theorem ofPairs {parameters parameters' : List String}
    (hparameters : List.Forall₂ t.names parameters parameters') {arguments arguments' : List Value}
    (h : Value.AllTranslated t arguments arguments') :
    Bindings.Translated t (Table.ofPairs (parameters.zip arguments))
      (Table.ofPairs (parameters'.zip arguments')) := by
  have hfold : ∀ bindings bindings' : Bindings, Bindings.Translated t bindings bindings' →
      Bindings.Translated t
        ((parameters.zip arguments).foldl (fun table (name, value) => table.set name value) bindings)
        ((parameters'.zip arguments').foldl (fun table (name, value) => table.set name value)
          bindings') := by
    induction hparameters generalizing arguments arguments' with
    | nil => exact fun _ _ hbindings => hbindings
    | cons hparameter _ ih =>
        intro bindings bindings' hbindings
        cases h with
        | nil => exact hbindings
        | cons ha has => exact ih has _ _ (hbindings.set hparameter ha)
  exact hfold [] [] .nil

end Bindings.Translated

theorem Table.get?_append {α : Type} (table more : Table α) (name : String) :
    Table.get? (table ++ more) name = (table.get? name).or (more.get? name) :=
  List.lookup_append

/-- Nothing that is hidden is seen under a name that stands for another. -/
theorem Scope.Translated.get? {id : ScopeId} {scope scope' : Scope}
    (h : Scope.Translated t id scope scope') {name name' : String} (hname : t.names name name') :
    Option.Rel (Value.Translated t) (scope.bindings.get? name) (scope'.bindings.get? name') := by
  obtain ⟨seen, hseen, hbindings⟩ := h.bindings
  have hnone : (t.hiddenIn id).get? name' = none := by
    unfold Vocabulary.hiddenIn
    split
    · exact t.unseen hname
    · rfl
  rw [hbindings, Table.get?_append, hnone, Option.or_none]
  exact hseen.get? hname

namespace Store.Translated

variable {store store' : Store} {name name' : String}

theorem find? (h : Store.Translated t store store') (hname : t.names name name') (reach : Nat)
    (id : ScopeId) :
    Option.Rel (Value.Translated t) (store.find? name reach id)
      (store'.find? name' reach id) := by
  induction reach generalizing id with
  | zero => exact .none
  | succ reach ih =>
      have hscopes := h.scopes id
      simp only [Store.find?]
      generalize store.scopes[id]? = found, store'.scopes[id]? = found' at hscopes ⊢
      cases hscopes with
      | none => exact .none
      | @some scope scope' hscope =>
          have hvalue := hscope.get? hname
          simp only [hscope.parent]
          generalize scope.bindings.get? name = bound, scope'.bindings.get? name' = bound' at hvalue ⊢
          cases hvalue with
          | some hvalue => exact .some hvalue
          | none =>
              cases scope.parent with
              | none => exact .none
              | some parent => exact ih parent

theorem lookup? (h : Store.Translated t store store') (hname : t.names name name')
    (id : ScopeId) :
    Option.Rel (Value.Translated t) (store.lookup? id name) (store'.lookup? id name') := by
  unfold Store.lookup?
  rw [h.size]
  exact h.find? hname _ id

/-! ### Changes of stores -/

theorem create (h : Store.Translated t store store') (parent : Option ScopeId)
    {bindings bindings' : Bindings} (hbindings : Bindings.Translated t bindings bindings') :
    Store.Translated t (store.create parent bindings).2 (store'.create parent bindings').2 where
  globals := by
    rw [size_create]
    exact Nat.succ_pos _
  size := by rw [size_create, size_create, h.size]
  closures := h.closures
  scopes := by
    intro id
    rw [scopes_create, scopes_create, h.size]
    split
    · next hid =>
        refine .some ⟨rfl, bindings', hbindings, ?_⟩
        have hne : id ≠ 0 := hid ▸ Nat.ne_of_gt h.globals
        rw [Vocabulary.hiddenIn, if_neg hne, List.append_nil]
    · exact h.scopes id
  printed := h.printed

/-- Nothing is hidden in the scopes in which names are bound. -/
theorem define (h : Store.Translated t store store') {id : ScopeId} (hid : 0 < id)
    (hname : t.names name name') {value value' : Value} (hvalue : Value.Translated t value value') :
    Store.Translated t (store.define id name value) (store'.define id name' value') where
  globals := by
    rw [size_define]
    exact h.globals
  size := by rw [size_define, size_define, h.size]
  closures := h.closures
  scopes := by
    intro other
    by_cases heq : other = id
    · obtain rfl := heq
      rw [scopes_define_self, scopes_define_self]
      have hscope := h.scopes other
      generalize store.scopes[other]? = scope, store'.scopes[other]? = scope' at hscope ⊢
      cases hscope with
      | none => exact .none
      | some hscope =>
          obtain ⟨seen, hseen, hbindings⟩ := hscope.bindings
          rw [Vocabulary.hiddenIn, if_neg (Nat.ne_of_gt hid), List.append_nil] at hbindings
          refine .some ⟨hscope.parent, _, (hbindings ▸ hseen).set hname hvalue, ?_⟩
          rw [Vocabulary.hiddenIn, if_neg (Nat.ne_of_gt hid), List.append_nil]
    · rw [scopes_define_of_ne _ _ _ _ heq, scopes_define_of_ne _ _ _ _ heq]
      exact h.scopes other
  printed := h.printed

theorem print (h : Store.Translated t store store') {text text' : String}
    (htold : Told t text text') :
    Store.Translated t (store.print text) (store'.print text') where
  globals := h.globals
  size := h.size
  closures := h.closures
  scopes := h.scopes
  printed := by
    rw [print_printed, print_printed, Array.toList_push, Array.toList_push]
    exact List.rel_append h.printed (.cons htold .nil)

theorem close (h : Store.Translated t store store') :
    Store.Translated t { store with closures := store.closures + 1 }
      { store' with closures := store'.closures + 1 } where
  globals := h.globals
  size := h.size
  closures := congrArg (· + 1) h.closures
  scopes := h.scopes
  printed := h.printed

end Store.Translated

end CallLang
