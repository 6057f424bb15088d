/-
  CallLang/Proofs/Unmentioned.lean
  ================================
  **What is not mentioned does not matter.**

  A program that does not mention a name cannot tell whether the name is bound.  It is
  the translation of itself where the names in question stand for none, so it does in an
  extended global scope what it does in a plain one.  The word of a form is no mention:
  whatever it is bound to, a call of it is a call of the form.
-/
import CallLang.Proofs.Translation
import Mathlib

namespace CallLang

mutual

/-- The names that occur in a value, as parameters of closures and in their bodies. -/
def Value.mentioned : Value → List String
  | .array items => Value.allMentioned items
  | .closure _ parameters body _ => parameters ++ body.mentioned
  | _ => []

def Value.allMentioned : List Value → List String
  | [] => []
  | value :: rest => value.mentioned ++ Value.allMentioned rest

/-- The names that occur in a tree.  The word of a form that is called is no name. -/
def Expr.mentioned : Expr → List String
  | .literal value _ => value.mentioned
  | .name text _ => [text]
  | .call operator arguments _ =>
    match operator.form? with
    | some _ => Expr.allMentioned arguments
    | none => operator.mentioned ++ Expr.allMentioned arguments
  | .hole => []

def Expr.allMentioned : List Expr → List String
  | [] => []
  | expr :: rest => expr.mentioned ++ Expr.allMentioned rest

end

/-- The vocabulary in which every name stands for itself, apart from some that are bound in the
    global scope besides. -/
def Vocabulary.without (extras : Bindings) : Vocabulary where
  names := fun name name' => name' = name ∧ name ∉ extras.names
  unambiguous := by
    rintro x y _ _ ⟨rfl, -⟩ ⟨rfl, -⟩
    exact Iff.rfl
  hidden := Table.ofPairs extras
  unseen := by
    rintro _ name ⟨rfl, hname⟩
    have hfold : ∀ table : Bindings, table.get? name = none →
        Table.get? (extras.foldl (fun table (name, value) => table.set name value) table) name =
          none := by
      induction extras with
      | nil => exact fun _ htable => htable
      | cons entry rest ih =>
          intro table htable
          obtain ⟨hentry, hrest⟩ := not_or.1 (mt List.mem_cons.2 hname)
          refine ih hrest _ ?_
          rw [Table.get?_set, if_neg hentry, htable]
    exact hfold [] rfl

variable {extras : Bindings}

/-! ### Translations of what mentions nothing of it -/

theorem not_mem_of_append {names as bs : List String}
    (h : ∀ name ∈ names, name ∉ as ++ bs) :
    (∀ name ∈ names, name ∉ as) ∧ ∀ name ∈ names, name ∉ bs :=
  ⟨fun name hname ha => h name hname (List.mem_append_left _ ha),
    fun name hname hb => h name hname (List.mem_append_right _ hb)⟩

mutual

theorem Value.translated_self : ∀ {value : Value},
    (∀ name ∈ extras.names, name ∉ value.mentioned) → Value.Translated (.without extras) value value
  | .number n, _ => .number n
  | .string text, _ => .string text
  | .boolean b, _ => .boolean b
  | .array _, h => .array (Value.allTranslated_self h)
  | .closure id parameters _ scope, h => by
    obtain ⟨hparameters, hbody⟩ := not_mem_of_append h
    have hnames : List.Forall₂ (Vocabulary.without extras).names parameters parameters :=
      List.forall₂_same.2 fun name hmem => ⟨rfl, fun hname => hparameters name hname hmem⟩
    exact .closure id scope hnames (Expr.translated_self hbody)
  | .builtin function home, _ => .builtin function home

theorem Value.allTranslated_self : ∀ {values : List Value},
    (∀ name ∈ extras.names, name ∉ Value.allMentioned values) →
      Value.AllTranslated (.without extras) values values
  | [], _ => .nil
  | _ :: _, h =>
    have ⟨hvalue, hrest⟩ := not_mem_of_append h
    .cons (Value.translated_self hvalue) (Value.allTranslated_self hrest)

/-- A tree that mentions none of the names is the translation of itself. -/
theorem Expr.translated_self : ∀ {expr : Expr},
    (∀ name ∈ extras.names, name ∉ expr.mentioned) → Expr.Translated (.without extras) expr expr
  | .literal _ span, h => .literal (Value.translated_self h) span
  | .name text span, h => by
    have hname : (Vocabulary.without extras).names text text :=
      ⟨rfl, fun hname => h text hname List.mem_cons_self⟩
    exact .name hname span
  | .call operator _ span, h => by
    rw [Expr.mentioned] at h
    cases hform : operator.form? with
    | some f =>
        rw [hform] at h
        exact .form hform (Expr.allTranslated_self h) span
    | none =>
        rw [hform] at h
        obtain ⟨hoperator, harguments⟩ := not_mem_of_append h
        exact .call hform hform (Expr.translated_self hoperator)
          (Expr.allTranslated_self harguments) span
  | .hole, _ => .hole

theorem Expr.allTranslated_self : ∀ {exprs : List Expr},
    (∀ name ∈ extras.names, name ∉ Expr.allMentioned exprs) →
      Expr.AllTranslated (.without extras) exprs exprs
  | [], _ => .nil
  | _ :: _, h =>
    have ⟨hexpr, hrest⟩ := not_mem_of_append h
    .cons (Expr.translated_self hexpr) (Expr.allTranslated_self hrest)

end

theorem Vocabulary.eq_of_names {names names' : List String}
    (h : List.Forall₂ (without extras).names names names') : names' = names := by
  induction h with
  | nil => rfl
  | cons hname _ ih => rw [hname.1, ih]

mutual

/-- Nothing else is the translation of a value. -/
theorem Value.Translated.eq {value value' : Value}
    (h : Value.Translated (.without extras) value value') : value' = value :=
  match h with
  | .number _ => rfl
  | .string _ => rfl
  | .boolean _ => rfl
  | .array hitems => congrArg Value.array hitems.eq
  | .closure id scope hparameters hbody => by
    rw [Vocabulary.eq_of_names hparameters, hbody.eq]
  | .builtin _ _ => rfl

theorem Value.AllTranslated.eq {values values' : List Value}
    (h : Value.AllTranslated (.without extras) values values') : values' = values :=
  match h with
  | .nil => rfl
  | .cons hvalue hrest => by rw [hvalue.eq, hrest.eq]

theorem Expr.Translated.eq {expr expr' : Expr}
    (h : Expr.Translated (.without extras) expr expr') : expr' = expr :=
  match h with
  | .literal hvalue _ => by rw [hvalue.eq]
  | .name hname _ => by rw [hname.1]
  | .form _ hoperands _ => by rw [hoperands.eq]
  | .call _ _ hoperator harguments _ => by rw [hoperator.eq, harguments.eq]
  | .hole => rfl

theorem Expr.AllTranslated.eq {exprs exprs' : List Expr}
    (h : Expr.AllTranslated (.without extras) exprs exprs') : exprs' = exprs :=
  match h with
  | .nil => rfl
  | .cons hexpr hrest => by rw [hexpr.eq, hrest.eq]

end

theorem Told.eq {text text' : String} (h : Told (.without extras) text text') : text' = text := by
  obtain ⟨limit, value, value', hvalue, htext, htext'⟩ := h
  rw [hvalue.eq, htext] at htext'
  exact (Except.ok.inj htext').symm

theorem Stop.Translated.eq {reason reason' : Stop}
    (h : Stop.Translated (.without extras) reason reason') : reason' = reason := by
  cases h with
  | mistake hcause span =>
      cases hcause with
      | same cause => rfl
      | unbound hname => rw [hname.1]
      | argumentCount hparameters expected got => rw [Vocabulary.eq_of_names hparameters]
      | notFunction kind htold => rw [htold.eq]
  | breakdown cause => rfl
  | unfinished => rfl

theorem Bindings.Translated.eq {bindings bindings' : Bindings}
    (h : Bindings.Translated (.without extras) bindings bindings') : bindings' = bindings := by
  induction h with
  | nil => rfl
  | @cons entry entry' rest rest' hentry _ ih =>
      rw [ih, Prod.ext hentry.1.1 hentry.2.eq]

/-- Only the global scope tells a store from its translation. -/
theorem Store.Translated.scopes_eq {store store' : Store}
    (h : Store.Translated (.without extras) store store') {id : ScopeId} (hid : id ≠ 0) :
    store'.scopes[id]? = store.scopes[id]? := by
  have hscope := h.scopes id
  generalize store.scopes[id]? = scope, store'.scopes[id]? = scope' at hscope ⊢
  cases hscope with
  | none => rfl
  | @some scope scope' hscope =>
      obtain ⟨parent, bindings⟩ := scope
      obtain ⟨parent', bindings'⟩ := scope'
      obtain ⟨hparent, seen, hseen, hbindings⟩ := hscope
      dsimp only at hparent hseen hbindings
      rw [Vocabulary.hiddenIn, if_neg hid, List.append_nil, hseen.eq] at hbindings
      rw [hparent, hbindings]

theorem Store.Translated.printed_eq {store store' : Store}
    (h : Store.Translated (.without extras) store store') : store'.printed = store.printed := by
  have hprinted := h.printed
  rw [← Array.toList_inj]
  generalize store.printed.toList = texts, store'.printed.toList = texts' at hprinted
  induction hprinted with
  | nil => rfl
  | cons htold _ ih => rw [htold.eq, ih]

/-! ### Extending the global scope -/

/-- A store with more names bound in a scope. -/
def Store.defineAll (store : Store) (id : ScopeId) (extras : Bindings) : Store :=
  extras.foldl (fun store (name, value) => store.define id name value) store

theorem Table.set_append {α : Type} {table : Table α} (more : Table α) {name : String}
    (entry : α) (h : name ∉ table.names) :
    Table.set (table ++ more) name entry = table ++ more.set name entry := by
  induction table with
  | nil => rfl
  | cons first rest ih =>
      obtain ⟨hfirst, hrest⟩ := not_or.1 (mt List.mem_cons.2 h)
      rw [List.cons_append, Table.set, if_neg (Ne.symm hfirst), ih hrest]
      rfl

/-- New names come behind those that the global scope binds anyway. -/
theorem Store.defineAll_fresh (h : ∀ name ∈ extras.names, name ∉ (Store.globalBindings 0).names) :
    Process.fresh.store.defineAll 0 extras = Store.freshWith (Table.ofPairs extras) := by
  have hfold : ∀ more : Bindings, (Store.freshWith more).defineAll 0 extras =
      Store.freshWith (extras.foldl (fun table (name, value) => table.set name value) more) := by
    induction extras with
    | nil => exact fun _ => rfl
    | cons entry rest ih =>
        intro more
        obtain ⟨name, value⟩ := entry
        have hdefine : (Store.freshWith more).define 0 name value =
            Store.freshWith (more.set name value) := by
          rw [Store.freshWith, Store.freshWith,
            ← Table.set_append more value (h name List.mem_cons_self)]
          rfl
        refine Eq.trans ?_ (ih (fun other hother => h other (List.mem_cons_of_mem _ hother)) _)
        rw [← hdefine]
        rfl
  rw [← Store.freshWith_nil]
  exact hfold []

/-- Bindings that a program does not mention do not affect it.  Whatever names the global scope
    binds besides, as long as they are new and the program does not mention them, evaluation in a
    scope within it comes to the same, prints the same and leaves all other scopes the same. -/
theorem Limits.unmentioned_irrelevant (limits : Limits) {program : Expr}
    (hnew : ∀ name ∈ extras.names, name ∉ (Store.globalBindings 0).names)
    (hmentions : ∀ name ∈ extras.names, name ∉ program.mentioned) :
    let plain := Process.fresh.store
    let extended := plain.defineAll Process.fresh.globals extras
    let child := plain.create (some Process.fresh.globals) []
    let child' := extended.create (some Process.fresh.globals) []
    let out := limits.eval program child.1 child.2
    let out' := limits.eval program child'.1 child'.2
    child'.1 = child.1 ∧ out'.1 = out.1 ∧ out'.2.printed = out.2.printed ∧
      out'.2.closures = out.2.closures ∧
      ∀ id, id ≠ Process.fresh.globals → out'.2.scopes[id]? = out.2.scopes[id]? := by
  intro plain extended child child' out out'
  have hextended : extended = Store.freshWith (Table.ofPairs extras) := Store.defineAll_fresh hnew
  have hprelude : ∀ name ∈ (Store.globalBindings 0).names,
      (Vocabulary.without extras).names name name :=
    fun name hname => ⟨rfl, fun hextra => hnew name hextra hname⟩
  obtain ⟨hstore, hresult⟩ := limits.translated_eval hprelude (Expr.translated_self hmentions)
  have hout' : out' = limits.eval program 1
      ((Store.freshWith (Vocabulary.without extras).hidden).create (some 0) []).2 := by
    simp only [out', child', hextended]
    rfl
  rw [hout']
  refine ⟨?_, ?_, hstore.printed_eq, hstore.closures, fun id hid => hstore.scopes_eq hid⟩
  · simp only [child', hextended]
    rfl
  · have hequal : ∀ {result result'}, Result.Translated (.without extras)
        (Value.Translated (.without extras)) result result' → result' = result := by
      rintro result result' (hvalue | hreason)
      · rw [hvalue.eq]
      · rw [hreason.eq]
    exact hequal hresult

/-- A program with a conditional does what it does, also where its word is bound to something. -/
theorem Limits.unmentioned_irrelevant_word :
    let extras : Bindings := [("if", .boolean false), ("spare", .boolean true)]
    let program : Expr := .call (.name "if" ⟨0, 2⟩) [.name "true" ⟨3, 7⟩,
      .call (.name "print" ⟨9, 14⟩) [.name "false" ⟨15, 20⟩] ⟨9, 21⟩, .name "y" ⟨23, 24⟩] ⟨0, 25⟩
    let extended := Process.fresh.store.defineAll 0 extras
    let out := Limits.eval ⟨9, 0⟩ program 1 (Process.fresh.store.create (some 0) []).2
    let out' := Limits.eval ⟨9, 0⟩ program 1 (extended.create (some 0) []).2
    out.1 = .ok (.boolean false) ∧ out'.1 = .ok (.boolean false) ∧ out.2.printed = #["false"] ∧
      out'.2.printed = #["false"] ∧ out'.2.scopes[1]? = out.2.scopes[1]? ∧
      out'.2.lookup? 1 "spare" = some (.boolean true) := by
  intro extras program extended out out'
  have hnew : ∀ name ∈ extras.names, name ∉ (Store.globalBindings 0).names := by decide
  have hmentions : ∀ name ∈ extras.names, name ∉ program.mentioned := by decide
  have hout : out.1 = .ok (.boolean false) := by
    simp only [out, program]
    cbv
  have hprinted : out.2.printed = #["false"] := by
    simp only [out, program]
    cbv
  have hspare : out'.2.lookup? 1 "spare" = some (.boolean true) := by
    simp only [out', extended, extras, program]
    cbv
  obtain ⟨-, hresult, htold, -, hscopes⟩ := Limits.unmentioned_irrelevant ⟨9, 0⟩ hnew hmentions
  have hshown : out'.2.printed = #["false"] := htold.trans hprinted
  have hsame : out'.1 = .ok (.boolean false) := hresult.trans hout
  exact ⟨hout, hsame, hprinted, hshown, hscopes 1 (by decide), hspare⟩

end CallLang
