/-
  CallLang/Proofs/Renaming.lean
  =============================
  **Names do not matter.**

  A `Renaming` gives every name another, no two names the same, and leaves the words of
  forms and the names that are bound from the beginning as they are.  A renamed program
  is the translation of the program: it comes to the renamed value, or fails at the same
  place with a mistake of the same category, and the scopes that it leaves are renamed.

  What it prints is the same wherever the printed value contains no closure, for only a
  closure shows names, those of its parameters.
-/
import CallLang.Proofs.Homes
import CallLang.Proofs.TranslatedRuns
import Mathlib.Logic.Equiv.Basic

namespace CallLang

/-- A renaming of the names that programs may choose. -/
structure Renaming where
  apply : String → String
  injective : Function.Injective apply
  words : ∀ f : Form, apply f.word = f.word
  prelude : ∀ name ∈ (Store.globalBindings 0).names, apply name = name

section

variable (r : Renaming)

mutual

/-- A value with the names in its closures renamed. -/
def Value.rename : Value → Value
  | .array items => .array (Value.renameAll items)
  | .closure id parameters body scope =>
    .closure id (parameters.map r.apply) body.rename scope
  | value => value

def Value.renameAll : List Value → List Value
  | [] => []
  | value :: rest => value.rename :: Value.renameAll rest

/-- A tree with its names renamed. -/
def Expr.rename : Expr → Expr
  | .literal value span => .literal value.rename span
  | .name text span => .name (r.apply text) span
  | .call operator arguments span => .call operator.rename (Expr.renameAll arguments) span
  | .hole => .hole

def Expr.renameAll : List Expr → List Expr
  | [] => []
  | expr :: rest => expr.rename :: Expr.renameAll rest

end

/-- A scope with all names renamed. -/
def Scope.rename (scope : Scope) : Scope :=
  { scope with bindings := scope.bindings.map fun (name, value) => (r.apply name, value.rename r) }

/-- What a renamed program comes to: the renamed value, or a mistake of the same category at the
    same place, or the same breakdown. -/
inductive Result.Renamed : Except Stop Value → Except Stop Value → Prop where
  | ok (value : Value) : Result.Renamed (.ok value) (.ok (value.rename r))
  | mistake {cause cause' : Mistake} (h : cause'.category = cause.category) (span : Option Span) :
      Result.Renamed (.error (.mistake cause span)) (.error (.mistake cause' span))
  | breakdown (cause : Breakdown) :
      Result.Renamed (.error (.breakdown cause)) (.error (.breakdown cause))
  | unfinished : Result.Renamed (.error .unfinished) (.error .unfinished)

/-- The vocabulary in which a name stands for what it is renamed to. -/
def Renaming.vocabulary : Vocabulary where
  names := fun name name' => name' = r.apply name
  unambiguous := by
    rintro x y _ _ rfl rfl
    exact r.injective.eq_iff.symm
  hidden := []
  unseen := fun _ => rfl

variable {r}

/-! ### Words -/

theorem Form.ofWord?_rename (name : String) : Form.ofWord? (r.apply name) = Form.ofWord? name := by
  have hword : ∀ f : Form, (f.word == r.apply name) = (f.word == name) := by
    intro f
    rw [beq_eq_decide, beq_eq_decide, decide_eq_decide]
    conv_lhs => rw [← r.words f]
    exact r.injective.eq_iff
  simp only [Form.ofWord?, hword]

theorem Expr.form?_rename (expr : Expr) : (expr.rename r).form? = expr.form? := by
  cases expr with
  | name text span => exact Form.ofWord?_rename text
  | _ => rfl

/-- The word of a form is not renamed. -/
theorem Expr.rename_of_form {expr : Expr} {f : Form} (h : expr.form? = some f) :
    expr.rename r = expr := by
  cases expr with
  | name text span =>
      obtain rfl : f.word = text := by simpa using List.find?_some h
      rw [Expr.rename, r.words]
  | _ => cases h

/-! ### What is renamed is translated -/

theorem Renaming.names_map (names : List String) :
    List.Forall₂ r.vocabulary.names names (names.map r.apply) :=
  List.forall₂_map_right_iff.2 (List.forall₂_same.2 fun _ _ => rfl)

theorem Renaming.map_of_names {names names' : List String}
    (h : List.Forall₂ r.vocabulary.names names names') : names' = names.map r.apply := by
  induction h with
  | nil => rfl
  | cons hname _ ih => rw [List.map_cons, ih, hname]

mutual

theorem Value.translated_rename : ∀ value : Value,
    Value.Translated r.vocabulary value (value.rename r)
  | .number n => .number n
  | .string text => .string text
  | .boolean b => .boolean b
  | .array items => .array (Value.allTranslated_rename items)
  | .closure id parameters body scope =>
    .closure id scope (Renaming.names_map parameters) body.translated_rename
  | .builtin function home => .builtin function home

theorem Value.allTranslated_rename : ∀ values : List Value,
    Value.AllTranslated r.vocabulary values (Value.renameAll r values)
  | [] => .nil
  | value :: rest => .cons value.translated_rename (Value.allTranslated_rename rest)

/-- A renamed tree is a translation of the tree. -/
theorem Expr.translated_rename : ∀ expr : Expr, Expr.Translated r.vocabulary expr (expr.rename r)
  | .literal value span => .literal value.translated_rename span
  | .name _ span => .name rfl span
  | .call operator arguments span => by
    cases hform : operator.form? with
    | some f =>
        rw [Expr.rename, Expr.rename_of_form hform]
        exact .form hform (Expr.allTranslated_rename arguments) span
    | none =>
        have hform' : (operator.rename r).form? = none := operator.form?_rename.trans hform
        exact .call hform hform' operator.translated_rename
          (Expr.allTranslated_rename arguments) span
  | .hole => .hole

theorem Expr.allTranslated_rename : ∀ exprs : List Expr,
    Expr.AllTranslated r.vocabulary exprs (Expr.renameAll r exprs)
  | [] => .nil
  | expr :: rest => .cons expr.translated_rename (Expr.allTranslated_rename rest)

end

mutual

/-- Nothing else is a translation of a value. -/
theorem Value.Translated.eq_rename {value value' : Value}
    (h : Value.Translated r.vocabulary value value') : value' = value.rename r :=
  match h with
  | .number _ => rfl
  | .string _ => rfl
  | .boolean _ => rfl
  | .array hitems => congrArg Value.array hitems.eq_rename
  | .closure id scope hparameters hbody => by
    rw [Renaming.map_of_names hparameters, hbody.eq_rename, Value.rename]
  | .builtin _ _ => rfl

theorem Value.AllTranslated.eq_rename {values values' : List Value}
    (h : Value.AllTranslated r.vocabulary values values') : values' = Value.renameAll r values :=
  match h with
  | .nil => rfl
  | .cons hvalue hrest => by rw [hvalue.eq_rename, hrest.eq_rename, Value.renameAll]

theorem Expr.Translated.eq_rename {expr expr' : Expr}
    (h : Expr.Translated r.vocabulary expr expr') : expr' = expr.rename r :=
  match h with
  | .literal hvalue _ => by rw [hvalue.eq_rename, Expr.rename]
  | .name hname _ => by rw [hname, Expr.rename]
  | .form hform hoperands _ => by
    rw [hoperands.eq_rename, Expr.rename, Expr.rename_of_form hform]
  | .call _ _ hoperator harguments _ => by
    rw [hoperator.eq_rename, harguments.eq_rename, Expr.rename]
  | .hole => rfl

theorem Expr.AllTranslated.eq_rename {exprs exprs' : List Expr}
    (h : Expr.AllTranslated r.vocabulary exprs exprs') : exprs' = Expr.renameAll r exprs :=
  match h with
  | .nil => rfl
  | .cons hexpr hrest => by rw [hexpr.eq_rename, hrest.eq_rename, Expr.renameAll]

end

theorem Bindings.Translated.eq_rename {bindings bindings' : Bindings}
    (h : Bindings.Translated r.vocabulary bindings bindings') :
    bindings' = bindings.map fun (name, value) => (r.apply name, value.rename r) := by
  induction h with
  | nil => rfl
  | @cons entry entry' rest rest' hentry _ ih =>
      have hrenamed : entry' = (r.apply entry.1, entry.2.rename r) :=
        Prod.ext hentry.1 hentry.2.eq_rename
      rw [List.map_cons, ih, hrenamed]

theorem Store.Translated.scopes_rename {store store' : Store}
    (h : Store.Translated r.vocabulary store store') :
    store'.scopes = store.scopes.map (Scope.rename r) := by
  refine Array.ext_getElem? fun id => ?_
  have hscope := h.scopes id
  rw [Array.getElem?_map]
  generalize store.scopes[id]? = scope, store'.scopes[id]? = scope' at hscope ⊢
  cases hscope with
  | none => rfl
  | @some scope scope' hscope =>
      obtain ⟨parent, bindings⟩ := scope
      obtain ⟨parent', bindings'⟩ := scope'
      obtain ⟨hparent, seen, hseen, hbindings⟩ := hscope
      dsimp only at hparent hseen hbindings
      have hnone : r.vocabulary.hiddenIn id = [] := ite_self _
      rw [hnone, List.append_nil, hseen.eq_rename] at hbindings
      rw [hparent, hbindings, Option.map_some, Scope.rename]

theorem Mistake.Translated.category_eq {t : Vocabulary} {cause cause' : Mistake}
    (h : Mistake.Translated t cause cause') : cause'.category = cause.category := by
  cases h <;> rfl

theorem Result.Translated.renamed {result result' : Except Stop Value}
    (h : Result.Translated r.vocabulary (Value.Translated r.vocabulary) result result') :
    Result.Renamed r result result' := by
  cases h with
  | ok hvalue =>
      rw [hvalue.eq_rename]
      exact .ok _
  | error hreason =>
      cases hreason with
      | mistake hcause span => exact .mistake hcause.category_eq span
      | breakdown cause => exact .breakdown cause
      | unfinished => exact .unfinished

/-! ### What shows no names -/

mutual

theorem Value.rename_of_not_hasClosure : ∀ {value : Value}, ¬value.HasClosure →
    value.rename r = value
  | .number _, _ => rfl
  | .string _, _ => rfl
  | .boolean _, _ => rfl
  | .array _, h =>
    congrArg Value.array (Value.renameAll_of_not_hasClosure fun _ hmem hitem => h (.array hmem hitem))
  | .closure id parameters body scope, h => absurd (.closure id parameters body scope) h
  | .builtin _ _, _ => rfl

theorem Value.renameAll_of_not_hasClosure : ∀ {values : List Value},
    (∀ value ∈ values, ¬value.HasClosure) → Value.renameAll r values = values
  | [], _ => rfl
  | value :: _, h => by
    rw [Value.renameAll, Value.rename_of_not_hasClosure (h value List.mem_cons_self),
      Value.renameAll_of_not_hasClosure fun other hmem => h other (List.mem_cons_of_mem _ hmem)]

end

/-- What a value is shown as does not depend on the limit. -/
theorem Value.display_eq_of_ok {value : Value} {limit limit' : Nat} {nested : Bool}
    {text text' : String} (h : value.display limit nested = .ok text)
    (h' : value.display limit' nested = .ok text') : text' = text := by
  have hdeep : value.display limit nested ≠ .error .tooDeep := by
    rw [h]
    exact nofun
  have hdeep' : value.display limit' nested ≠ .error .tooDeep := by
    rw [h']
    exact nofun
  have hleft := Value.display_of_le (Nat.le_max_left limit limit') hdeep
  have hright := Value.display_of_le (Nat.le_max_right limit limit') hdeep'
  rw [h] at hleft
  rw [h', hleft] at hright
  exact (Except.ok.inj hright).symm

end

theorem Store.translated_begun (r : Renaming) :
    Store.Translated r.vocabulary Store.begun.2 Store.begun.2 := by
  have hfresh := Store.translated_fresh (t := r.vocabulary) fun name hname =>
    (r.prelude name hname).symm
  rw [show r.vocabulary.hidden = [] from rfl, Store.freshWith_nil] at hfresh
  exact hfresh.create (some Process.fresh.globals) .nil

/-- The names that programs choose do not matter.  A program and the same program renamed both
    come to an end or not, within whatever limits; they come to the same value but for names, to
    a mistake of the same category at the same place, or to the same breakdown, and they leave
    the same scopes but for names.  Both print as many texts, and every text shows a value that
    the execution comes to printing; where it contains no closure, both texts are the same. -/
theorem Limits.eval_renamed (limits : Limits) (r : Renaming) (program : Expr) :
    let start : Moment := ⟨program, Store.begun.1, Store.begun.2⟩
    let out := limits.eval program Store.begun.1 Store.begun.2
    let out' := limits.eval (program.rename r) Store.begun.1 Store.begun.2
    Result.Renamed r out.1 out'.1 ∧
      (∀ value, out.1 = .ok value → ¬value.HasClosure → out'.1 = .ok value) ∧
      out'.2.scopes = out.2.scopes.map (Scope.rename r) ∧ out'.2.closures = out.2.closures ∧
      out'.2.printed.size = out.2.printed.size ∧
      (∀ index, index < out.2.printed.size → ∃ value, start.Prints index value) ∧
      ∀ index value, start.Prints index value → ¬value.HasClosure →
        out'.2.printed[index]? = out.2.printed[index]? := by
  intro start out out'
  have hbegun := Store.translated_begun r
  have hwithin : 0 < Store.begun.1 := Nat.zero_lt_one
  obtain ⟨hstore, hresult⟩ : Store.Translated r.vocabulary out.2 out'.2 ∧
      Result.Translated r.vocabulary (Value.Translated r.vocabulary) out.1 out'.1 :=
    Evaluator.translated_eval r.vocabulary limits.rounds limits.depth program.translated_rename
      hwithin _ _ hbegun
  have hsize : out'.2.printed.size = out.2.printed.size := by
    rw [← Array.length_toList, ← Array.length_toList, hstore.printed.length_eq]
  refine ⟨hresult.renamed, ?_, hstore.scopes_rename, hstore.closures, hsize, ?_, ?_⟩
  · intro value hvalue hclosure
    generalize out'.1 = result' at hresult ⊢
    rw [hvalue] at hresult
    cases hresult with
    | ok htranslated => rw [htranslated.eq_rename, Value.rename_of_not_hasClosure hclosure]
  · exact fun index hindex => start.traces_run limits index (Nat.zero_le _) hindex
  · intro index value hprints hclosure
    obtain ⟨value', hprints', htranslated⟩ := hprints.translated (t := r.vocabulary)
      (.mk program.translated_rename hwithin hbegun)
    obtain rfl : value' = value := by
      rw [htranslated.eq_rename, Value.rename_of_not_hasClosure hclosure]
    obtain ⟨limit, text, htext, hshows⟩ := hprints.shows
    obtain ⟨limit', text', htext', hshows'⟩ := hprints'.shows
    obtain rfl : text' = text := Value.display_eq_of_ok htext htext'
    rw [← Array.getElem?_toList, ← Array.getElem?_toList]
    cases htold : out.2.printed.toList[index]? with
    | none =>
        rw [List.getElem?_eq_none_iff, Array.length_toList] at htold ⊢
        exact hsize ▸ htold
    | some told =>
        obtain ⟨hindex, -⟩ := List.getElem?_eq_some_iff.1 htold
        have hindex' : index < out'.2.printed.toList.length := by
          rwa [← hstore.printed.length_eq]
        have htold' := List.getElem?_eq_getElem hindex'
        rw [htold', hshows.eq htold, hshows'.eq htold']

/-- The renaming that swaps two names. -/
def Renaming.swap (a b : String) (hwords : ∀ f : Form, f.word ≠ a ∧ f.word ≠ b)
    (hprelude : ∀ name ∈ (Store.globalBindings 0).names, name ≠ a ∧ name ≠ b) : Renaming where
  apply := Equiv.swap a b
  injective := (Equiv.swap a b).injective
  words := fun f => Equiv.swap_apply_of_ne_of_ne (hwords f).1 (hwords f).2
  prelude := fun name hname =>
    Equiv.swap_apply_of_ne_of_ne (hprelude name hname).1 (hprelude name hname).2

/-- A program that prints a function of its own shows the new name of the parameter; all else is
    printed as before. -/
theorem Limits.eval_renamed_swap :
    let r : Renaming := .swap "x" "y" (by rintro ⟨⟩ <;> decide) (by decide)
    let program : Expr := .call (.name "do" ⟨0, 2⟩)
      [.call (.name "define" ⟨3, 9⟩) [.name "x" ⟨10, 11⟩,
        .call (.name "fun" ⟨13, 16⟩) [.name "y" ⟨17, 18⟩, .name "y" ⟨20, 21⟩] ⟨13, 22⟩] ⟨3, 23⟩,
      .call (.name "print" ⟨25, 30⟩) [.name "x" ⟨31, 32⟩] ⟨25, 33⟩,
      .call (.name "print" ⟨35, 40⟩)
        [.call (.name "x" ⟨41, 42⟩) [.name "true" ⟨43, 47⟩] ⟨41, 48⟩] ⟨35, 49⟩] ⟨0, 50⟩
    let out := Limits.eval ⟨9, 0⟩ program Store.begun.1 Store.begun.2
    let out' := Limits.eval ⟨9, 0⟩ (program.rename r) Store.begun.1 Store.begun.2
    out.1 = .ok (.boolean true) ∧ out'.1 = .ok (.boolean true) ∧
      out.2.printed = #["fun(y)", "true"] ∧ out'.2.printed = #["fun(x)", "true"] ∧
      out'.2.scopes = out.2.scopes.map (Scope.rename r) := by
  intro r program out out'
  have hout : out.1 = .ok (.boolean true) := by
    simp only [out, program]
    cbv
  have hprinted : out.2.printed = #["fun(y)", "true"] := by
    simp only [out, program]
    cbv
  have hprinted' : out'.2.printed = #["fun(x)", "true"] := by
    simp only [out', program, r]
    cbv
  obtain ⟨-, hresult, hscopes, -⟩ := Limits.eval_renamed ⟨9, 0⟩ r program
  have hopen : ¬(Value.boolean true).HasClosure := by rintro ⟨⟩
  exact ⟨hout, hresult _ hout hopen, hprinted, hprinted', hscopes⟩

end CallLang
