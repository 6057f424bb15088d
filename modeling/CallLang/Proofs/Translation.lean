/-
  CallLang/Proofs/Translation.lean
  ================================
  **Evaluation translates.**

  If a store is the translation of another, so is what comes of evaluating a tree and
  its translation in the same scope: the values, the reasons to stop and the stores that
  are left are translations of each other again.

  The induction is on the depth of evaluation.  All evaluation takes place within the
  outermost scope and never in it, so what is hidden there stays hidden.
-/
import CallLang.Process
import CallLang.Proofs.Steps
import CallLang.Proofs.Vocabularies

namespace CallLang

/-- Whether two results are translations of each other, given when values are. -/
inductive Result.Translated {α β : Type} (t : Vocabulary) (values : α → β → Prop) :
    Except Stop α → Except Stop β → Prop where
  | ok {a : α} {b : β} (h : values a b) : Result.Translated t values (.ok a) (.ok b)
  | error {reason reason' : Stop} (h : Stop.Translated t reason reason') :
      Result.Translated t values (.error reason) (.error reason')

/-- Whether two actions leave translations and come to translations wherever they start from
    translations. -/
def Action.Translated {α β : Type} (t : Vocabulary) (values : α → β → Prop) (action : Action α)
    (action' : Action β) : Prop :=
  ∀ store store', Store.Translated t store store' →
    Store.Translated t (action store).2 (action' store').2 ∧
      Result.Translated t values (action store).1 (action' store').1

/-- Whether two evaluators translate within the outermost scope. -/
def Evaluator.Translated (t : Vocabulary) (evaluate evaluate' : Evaluator) : Prop :=
  ∀ {expr expr'} {scope : ScopeId}, Expr.Translated t expr expr' → 0 < scope →
    Action.Translated t (Value.Translated t) (evaluate expr scope) (evaluate' expr' scope)

variable {t : Vocabulary}

/-! ### Actions -/

namespace Action.Translated

variable {α β γ δ : Type} {values : α → β → Prop} {values' : γ → δ → Prop}

theorem ofExcept {result : Except Stop α} {result' : Except Stop β}
    (h : Result.Translated t values result result') :
    Action.Translated t values (Action.ofExcept result) (Action.ofExcept result') :=
  fun _ _ hstore => ⟨hstore, h⟩

theorem pure {a : α} {b : β} (h : values a b) :
    Action.Translated t values (Action.pure a) (Action.pure b) :=
  ofExcept (.ok h)

theorem stop {reason reason' : Stop} (h : Stop.Translated t reason reason') :
    Action.Translated t values (Action.stop reason) (Action.stop reason') :=
  ofExcept (.error h)

theorem fail {cause cause' : Mistake} (h : Mistake.Translated t cause cause')
    (span : Option Span) :
    Action.Translated t values (Action.fail cause span) (Action.fail cause' span) :=
  stop (.mistake h span)

theorem breakdown (cause : Breakdown) :
    Action.Translated t values (Action.stop (.breakdown cause)) (Action.stop (.breakdown cause)) :=
  stop (.breakdown cause)

theorem bind {first : Action α} {first' : Action β} {second : α → Action γ}
    {second' : β → Action δ} (hfirst : Action.Translated t values first first')
    (hsecond : ∀ a b, values a b → Action.Translated t values' (second a) (second' b)) :
    Action.Translated t values' (Action.bind first second) (Action.bind first' second') := by
  intro store store' hstore
  obtain ⟨hafter, hresult⟩ := hfirst store store' hstore
  unfold Action.bind
  generalize first store = out, first' store' = out' at hafter hresult ⊢
  obtain ⟨result, after⟩ := out
  obtain ⟨result', after'⟩ := out'
  cases hresult with
  | ok hvalue => exact hsecond _ _ hvalue after after' hafter
  | error hreason => exact ⟨hafter, .error hreason⟩

/-- A value and its translation are shown by texts that tell them, or by none. -/
theorem display {value value' : Value} (h : Value.Translated t value value') (limit : Nat) :
    Action.Translated t (Told t) (Action.ofBreakdown (Value.display limit false value))
      (Action.ofBreakdown (Value.display limit false value')) := by
  rcases h.display limit false with ⟨text, text', htext, htext'⟩ | ⟨cause, hcause, hcause'⟩
  · rw [htext, htext']
    exact pure ⟨limit, value, value', h, htext, htext'⟩
  · rw [hcause, hcause']
    exact breakdown cause

theorem lookup {name name' : String} (hname : t.names name name') (id : ScopeId) (span : Span) :
    Action.Translated t (Value.Translated t) (Action.lookup id name span)
      (Action.lookup id name' span) := by
  intro store store' hstore
  have hvalue := hstore.lookup? hname id
  unfold Action.lookup
  generalize store.lookup? id name = found, store'.lookup? id name' = found' at hvalue ⊢
  cases hvalue with
  | some hvalue => exact ⟨hstore, .ok hvalue⟩
  | none => exact ⟨hstore, .error (.mistake (.unbound hname) _)⟩

/-- A new scope lies within the outermost one. -/
theorem create (parent : Option ScopeId) {bindings bindings' : Bindings}
    (hbindings : Bindings.Translated t bindings bindings') :
    Action.Translated t (fun id id' => id' = id ∧ 0 < id) (Action.create parent bindings)
      (Action.create parent bindings') :=
  fun _ _ hstore => ⟨hstore.create parent hbindings, .ok ⟨hstore.size, hstore.globals⟩⟩

theorem define {id : ScopeId} (hid : 0 < id) {name name' : String} (hname : t.names name name')
    {value value' : Value} (hvalue : Value.Translated t value value') :
    Action.Translated t (fun _ _ => True) (Action.define id name value)
      (Action.define id name' value') :=
  fun _ _ hstore => ⟨hstore.define hid hname hvalue, .ok trivial⟩

theorem print {text text' : String} (h : Told t text text') :
    Action.Translated t (fun _ _ => True) (Action.print text) (Action.print text') :=
  fun _ _ hstore => ⟨hstore.print h, .ok trivial⟩

theorem close {parameters parameters' : List String}
    (hparameters : List.Forall₂ t.names parameters parameters') {body body' : Expr}
    (hbody : Expr.Translated t body body') (scope : ScopeId) :
    Action.Translated t (Value.Translated t) (Action.close parameters body scope)
      (Action.close parameters' body' scope) := by
  intro store store' hstore
  refine ⟨hstore.close, .ok ?_⟩
  rw [hstore.closures]
  exact .closure store.closures scope hparameters hbody

end Action.Translated

/-! ### Built-in functions -/

namespace Builtin

variable {a a' b b' : Value}

theorem translated_arithmetic (function : Builtin) (operation : Number → Number → Option Number)
    (ha : Value.Translated t a a') (hb : Value.Translated t b b') (place : Option Span) :
    Action.Translated t (Value.Translated t) (arithmetic function operation a b place)
      (arithmetic function operation a' b' place) := by
  cases ha with
  | number m =>
      cases hb with
      | number n =>
          simp only [arithmetic]
          cases operation m n with
          | none => exact .breakdown _
          | some sum => exact .pure (.number sum)
      | _ => exact .fail (.same _) place
  | _ => cases hb <;> exact .fail (.same _) place

theorem translated_sum (ha : Value.Translated t a a') (hb : Value.Translated t b b')
    (place : Option Span) :
    Action.Translated t (Value.Translated t) (sum a b place) (sum a' b' place) := by
  cases ha with
  | number m =>
      cases hb with
      | number n => exact translated_arithmetic add Number.add (.number m) (.number n) place
      | _ => exact .fail (.same _) place
  | string s =>
      cases hb with
      | string u => exact .pure (.string (s ++ u))
      | _ => exact .fail (.same _) place
  | _ => cases hb <;> exact .fail (.same _) place

theorem translated_quotient (ha : Value.Translated t a a') (hb : Value.Translated t b b')
    (place : Option Span) :
    Action.Translated t (Value.Translated t) (quotient a b place) (quotient a' b' place) := by
  cases ha with
  | number m =>
      cases hb with
      | number n =>
          simp only [quotient]
          cases m.div n with
          | ok number => exact .pure (.number number)
          | error fault => cases fault <;> exact .fail (.same _) place
      | _ => exact .fail (.same _) place
  | _ => cases hb <;> exact .fail (.same _) place

theorem translated_comparison (function : Builtin) (numbers : Number → Number → Bool)
    (strings : String → String → Bool) (ha : Value.Translated t a a')
    (hb : Value.Translated t b b') (place : Option Span) :
    Action.Translated t (Value.Translated t) (comparison function numbers strings a b place)
      (comparison function numbers strings a' b' place) := by
  cases ha with
  | number m =>
      cases hb with
      | number n => exact .pure (.boolean (numbers m n))
      | _ => exact .fail (.same _) place
  | string s =>
      cases hb with
      | string u => exact .pure (.boolean (strings s u))
      | _ => exact .fail (.same _) place
  | _ => cases hb <;> exact .fail (.same _) place

theorem translated_item {items items' : List Value} (hitems : Value.AllTranslated t items items')
    (index : Number) (place : Option Span) :
    Action.Translated t (Value.Translated t) (item items index place)
      (item items' index place) := by
  have hfound : Option.Rel (Value.Translated t)
      (index.toInt?.bind fun n => if n < 0 then none else items[n.toNat]?)
      (index.toInt?.bind fun n => if n < 0 then none else items'[n.toNat]?) := by
    cases index.toInt? with
    | none => exact .none
    | some n =>
        by_cases hn : n < 0
        · simp only [Option.bind_some, if_pos hn]
          exact .none
        · simp only [Option.bind_some, if_neg hn]
          exact hitems.getElem? n.toNat
  unfold item
  simp only
  generalize (index.toInt?.bind fun n => if n < 0 then none else items[n.toNat]?) = found,
    (index.toInt?.bind fun n => if n < 0 then none else items'[n.toNat]?) = found' at hfound ⊢
  cases hfound with
  | some hvalue => exact .pure hvalue
  | none =>
      cases index.display with
      | ok shown =>
          rw [hitems.length_eq]
          exact .fail (.same _) place
      | error cause => exact .breakdown cause

theorem translated_apply (limit : Nat) (place : Option Span) (function : Builtin)
    {arguments arguments' : List Value} (h : Value.AllTranslated t arguments arguments') :
    Action.Translated t (Value.Translated t) (function.apply limit place arguments)
      (function.apply limit place arguments') := by
  -- two arguments have two translations, and one has one
  have hpair : ∀ {a b : Value}, arguments = [a, b] → ∃ a' b', arguments' = [a', b'] ∧
      Value.Translated t a a' ∧ Value.Translated t b b' := by
    rintro a b rfl
    obtain _ | ⟨ha, _ | ⟨hb, _ | _⟩⟩ := h
    exact ⟨_, _, rfl, ha, hb⟩
  have hsingle : ∀ {a : Value}, arguments = [a] → ∃ a', arguments' = [a'] ∧
      Value.Translated t a a' := by
    rintro a rfl
    obtain _ | ⟨ha, _ | _⟩ := h
    exact ⟨_, rfl, ha⟩
  cases function.use arguments with
  | add a b =>
      obtain ⟨a', b', rfl, ha, hb⟩ := hpair rfl
      exact translated_sum ha hb place
  | subtract a b =>
      obtain ⟨a', b', rfl, ha, hb⟩ := hpair rfl
      exact translated_arithmetic subtract Number.sub ha hb place
  | multiply a b =>
      obtain ⟨a', b', rfl, ha, hb⟩ := hpair rfl
      exact translated_arithmetic multiply Number.mul ha hb place
  | divide a b =>
      obtain ⟨a', b', rfl, ha, hb⟩ := hpair rfl
      exact translated_quotient ha hb place
  | equal a b =>
      obtain ⟨a', b', rfl, ha, hb⟩ := hpair rfl
      simp only [apply, ha.equal_eq hb]
      cases Value.equal limit a b with
      | ok answer => exact .pure (.boolean answer)
      | error cause => exact .breakdown cause
  | less a b =>
      obtain ⟨a', b', rfl, ha, hb⟩ := hpair rfl
      exact translated_comparison less _ _ ha hb place
  | greater a b =>
      obtain ⟨a', b', rfl, ha, hb⟩ := hpair rfl
      exact translated_comparison greater _ _ ha hb place
  | print value =>
      obtain ⟨value', rfl, hvalue⟩ := hsingle rfl
      refine (Action.Translated.display hvalue limit).bind fun text text' htold => ?_
      exact (Action.Translated.print htold).bind fun _ _ _ => .pure hvalue
  | array items => exact .pure (.array h)
  | length value =>
      obtain ⟨value', rfl, hvalue⟩ := hsingle rfl
      cases hvalue with
      | array hitems =>
          simp only [apply, hitems.length_eq]
          exact .pure (.number _)
      | _ => exact .fail (.same _) place
  | element value index =>
      obtain ⟨value', index', rfl, hvalue, hindex⟩ := hpair rfl
      cases hvalue with
      | array hitems =>
          cases hindex with
          | number n => exact translated_item hitems n place
          | _ => exact .fail (.same _) place
      | _ => exact .fail (.same _) place
  | wrong hexpected hlength =>
      have hlength' := h.length_eq ▸ hlength
      rw [apply_misused hexpected hlength, apply_misused hexpected hlength', h.length_eq]
      exact .fail (.same _) place

end Builtin

/-! ### Forms -/

theorem Expr.AllTranslated.suits_iff (f : Form) {operands operands' : List Expr}
    (h : Expr.AllTranslated t operands operands') : f.Suits operands' ↔ f.Suits operands := by
  cases f with
  | conditional => simp only [Form.Suits, h.length_eq]
  | loop => simp only [Form.Suits, h.length_eq]
  | sequence => exact Iff.rfl
  | define =>
      constructor
      · rintro ⟨name, place, expr, rfl⟩
        obtain _ | ⟨hname, _ | ⟨hexpr, _ | _⟩⟩ := h
        cases hname with
        | name _ span => exact ⟨_, place, _, rfl⟩
      · rintro ⟨name, place, expr, rfl⟩
        obtain _ | ⟨hname, _ | ⟨hexpr, _ | _⟩⟩ := h
        cases hname with
        | name _ span => exact ⟨_, place, _, rfl⟩
  | function => simp only [Form.Suits, ne_eq, ← List.length_eq_zero_iff, h.length_eq]

namespace Evaluator

variable {evaluate evaluate' : Evaluator} {scope : ScopeId}

theorem translated_all (hevaluate : Evaluator.Translated t evaluate evaluate') (hscope : 0 < scope)
    {es es' : List Expr} (h : Expr.AllTranslated t es es') :
    Action.Translated t (Value.AllTranslated t) (all evaluate scope es)
      (all evaluate' scope es') := by
  induction es generalizing es' with
  | nil =>
      cases h
      exact .pure .nil
  | cons e es ih =>
      obtain _ | ⟨he, hes⟩ := h
      refine (hevaluate he hscope).bind fun value value' hvalue => ?_
      exact (ih hes).bind fun values values' hvalues => .pure (.cons hvalue hvalues)

theorem translated_last (hevaluate : Evaluator.Translated t evaluate evaluate')
    (hscope : 0 < scope) {value value' : Value} (hvalue : Value.Translated t value value')
    {es es' : List Expr} (h : Expr.AllTranslated t es es') :
    Action.Translated t (Value.Translated t) (last evaluate scope value es)
      (last evaluate' scope value' es') := by
  induction es generalizing es' value value' with
  | nil =>
      cases h
      exact .pure hvalue
  | cons e es ih =>
      obtain _ | ⟨he, hes⟩ := h
      exact (hevaluate he hscope).bind fun value value' hvalue => ih hvalue hes

theorem translated_repeatWhile (hevaluate : Evaluator.Translated t evaluate evaluate')
    (hscope : 0 < scope) {test test' body body' : Expr} (htest : Expr.Translated t test test')
    (hbody : Expr.Translated t body body') (rounds : Nat) :
    Action.Translated t (Value.Translated t) (repeatWhile evaluate scope test body rounds)
      (repeatWhile evaluate' scope test' body' rounds) := by
  induction rounds with
  | zero => exact .stop .unfinished
  | succ rounds ih =>
      refine (hevaluate htest hscope).bind fun answer answer' hanswer => ?_
      rw [hanswer.isTrue_eq]
      split
      · exact (hevaluate hbody hscope).bind fun _ _ _ => ih
      · exact .pure (.boolean false)

theorem translated_parameterNames {es es' : List Expr} (h : Expr.AllTranslated t es es') :
    Result.Translated t (List.Forall₂ t.names) (parameterNames es) (parameterNames es') := by
  induction es generalizing es' with
  | nil =>
      cases h
      exact .ok .nil
  | cons e es ih =>
      obtain _ | ⟨he, hes⟩ := h
      next es' =>
      cases he with
      | name hname span =>
          have hrest := ih hes
          simp only [parameterNames]
          generalize parameterNames es = names, parameterNames es' = names' at hrest ⊢
          cases hrest with
          | ok hnames => exact .ok (.cons hname hnames)
          | error hreason => exact .error hreason
      | hole => exact .error (.breakdown _)
      | _ => exact .error (.mistake (.same _) _)

theorem translated_form (hevaluate : Evaluator.Translated t evaluate evaluate')
    (hscope : 0 < scope) (rounds : Nat) (f : Form) {operands operands' : List Expr}
    (h : Expr.AllTranslated t operands operands') (span : Span) :
    Action.Translated t (Value.Translated t) (form rounds evaluate scope f operands span)
      (form rounds evaluate' scope f operands' span) := by
  cases f.use operands with
  | conditional test yes no =>
      obtain _ | ⟨htest, _ | ⟨hyes, _ | ⟨hno, _ | _⟩⟩⟩ := h
      rw [form_conditional, form_conditional]
      refine (hevaluate htest hscope).bind fun answer answer' hanswer => ?_
      rw [hanswer.isTrue_eq]
      split
      · exact hevaluate hyes hscope
      · exact hevaluate hno hscope
  | loop test body =>
      obtain _ | ⟨htest, _ | ⟨hbody, _ | _⟩⟩ := h
      rw [form_loop, form_loop]
      exact translated_repeatWhile hevaluate hscope htest hbody rounds
  | sequence operands =>
      rw [form_sequence, form_sequence]
      exact translated_last hevaluate hscope (.boolean false) h
  | define name place expr =>
      obtain _ | ⟨hname, _ | ⟨hexpr, _ | _⟩⟩ := h
      cases hname with
      | name hname place =>
          rw [form_define, form_define]
          refine (hevaluate hexpr hscope).bind fun value value' hvalue => ?_
          exact (Action.Translated.define hscope hname hvalue).bind fun _ _ _ => .pure hvalue
  | function parameters body =>
      obtain ⟨parameters', _, rfl, hparameters, hlast⟩ := h.exists_append
      obtain _ | ⟨hbody, _ | _⟩ := hlast
      rw [form_function, form_function]
      exact (Action.Translated.ofExcept (translated_parameterNames hparameters)).bind
        fun names names' hnames => .close hnames hbody scope
  | wrong hwrong =>
      have hwrong' := mt (h.suits_iff f).1 hwrong
      rw [form_misused rounds evaluate scope span hwrong,
        form_misused rounds evaluate' scope span hwrong', h.length_eq]
      exact .fail (.same _) _

/-! ### Application and evaluation -/

theorem translated_apply (hevaluate : Evaluator.Translated t evaluate evaluate') (limit : Nat)
    (place : Option Span) {callee callee' : Value} (hcallee : Value.Translated t callee callee')
    {arguments arguments' : List Value} (harguments : Value.AllTranslated t arguments arguments') :
    Action.Translated t (Value.Translated t) (apply limit evaluate place callee arguments)
      (apply limit evaluate' place callee' arguments') := by
  have hshown := Action.Translated.display hcallee limit
  have hkind := hcallee.kind_eq
  cases hcallee with
  | closure id scope hparameters hbody =>
      simp only [apply, harguments.length_eq, ← hparameters.length_eq]
      split
      · refine (Action.Translated.create (some scope) (.ofPairs hparameters harguments)).bind ?_
        rintro inner _ ⟨rfl, hinner⟩
        exact hevaluate hbody hinner
      · exact .fail (.argumentCount hparameters _ _) place
  | builtin function home => exact function.translated_apply limit place harguments
  | _ => exact hshown.bind fun shown shown' htold => hkind ▸ .fail (.notFunction _ htold) place

/-- Evaluation translates. -/
theorem translated_eval (t : Vocabulary) (rounds depth : Nat) :
    Evaluator.Translated t (eval rounds depth) (eval rounds depth) := by
  induction depth with
  | zero => exact fun _ _ => .breakdown _
  | succ depth ih =>
      intro expr expr' scope hexpr hscope
      cases hexpr with
      | literal hvalue span => exact .pure hvalue
      | name hname span => exact .lookup hname scope span
      | hole => exact .fail (.same _) none
      | form hform hoperands span =>
          simp only [eval, hform]
          exact translated_form ih hscope rounds _ hoperands span
      | call hform hform' hoperator harguments span =>
          simp only [eval, hform, hform']
          refine (ih hoperator hscope).bind fun callee callee' hcallee => ?_
          refine (translated_all ih hscope harguments).bind fun values values' hvalues => ?_
          exact translated_apply ih depth (some span) hcallee hvalues

end Evaluator

/-! ### The outermost scope -/

/-- The store of a process that has just begun, with more bound in its global scope. -/
def Store.freshWith (more : Bindings) : Store :=
  { Process.fresh.store with
    scopes := #[{ parent := none, bindings := Store.globalBindings 0 ++ more }] }

theorem Store.freshWith_nil : Store.freshWith [] = Process.fresh.store := by
  rw [freshWith, List.append_nil]
  rfl

theorem Bindings.translated_globals (h : ∀ name ∈ (Store.globalBindings 0).names, t.names name name) :
    Bindings.Translated t (Store.globalBindings 0) (Store.globalBindings 0) := by
  obtain ⟨htrue, hfalse, hbuiltins⟩ : t.names "true" "true" ∧ t.names "false" "false" ∧
      ∀ function ∈ Builtin.all, t.names function.name function.name := by
    simpa [Store.globalBindings, Table.names] using h
  refine .cons ⟨htrue, .boolean true⟩ (.cons ⟨hfalse, .boolean false⟩ ?_)
  refine List.forall₂_map_left_iff.2 (List.forall₂_map_right_iff.2 (List.forall₂_same.2 ?_))
  exact fun function hmem => ⟨hbuiltins function hmem, .builtin function 0⟩

/-- The store of a process that has just begun, with something hidden in its global scope, is the
    translation of the same without, if every name that is bound stands for itself. -/
theorem Store.translated_fresh
    (h : ∀ name ∈ (Store.globalBindings 0).names, t.names name name) :
    Store.Translated t Process.fresh.store (Store.freshWith t.hidden) where
  globals := Nat.zero_lt_one
  size := rfl
  closures := rfl
  scopes := by
    intro id
    cases id with
    | zero => exact .some ⟨rfl, _, Bindings.translated_globals h, rfl⟩
    | succ id => exact .none
  printed := .nil

/-- Evaluation in a new scope within the global one translates. -/
theorem Limits.translated_eval (limits : Limits)
    (h : ∀ name ∈ (Store.globalBindings 0).names, t.names name name) {program program' : Expr}
    (hprogram : Expr.Translated t program program') :
    let out := limits.eval program 1 (Process.fresh.store.create (some 0) []).2
    let out' := limits.eval program' 1 ((Store.freshWith t.hidden).create (some 0) []).2
    Store.Translated t out.2 out'.2 ∧
      Result.Translated t (Value.Translated t) out.1 out'.1 :=
  Evaluator.translated_eval t limits.rounds limits.depth hprogram Nat.zero_lt_one _ _
    ((Store.translated_fresh h).create (some 0) .nil)

end CallLang
