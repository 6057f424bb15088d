/-
  CallLang/Proofs/Calls.lean
  ==========================
  **What a call comes to.**

  Once the parts of a call are known, so is the call.  The equations below lead through an
  evaluation whose names are known: a name has the value that is found for it, a built-in
  function that is found under its own name is applied to its arguments, and a closure
  evaluates its body in a new scope.

  What a name has from a scope stays the same while scopes are created elsewhere, so it need
  be known only once for a whole evaluation.
-/
import CallLang.Proofs.Correspondence
import CallLang.Proofs.Executions

namespace CallLang

/-! ### Finding -/

namespace Store

variable {store after : Store} {scope id : ScopeId} {name other : String} {value found : Value}

theorem find?_of_frozen (h : store.Frozen after) {reach reach' : Nat} (hreach : reach ≤ reach')
    (hfound : store.find? name reach id = some value) :
    after.find? name reach' id = some value := by
  induction reach generalizing reach' id with
  | zero => cases hfound
  | succ reach ih =>
      obtain ⟨reach', rfl⟩ := Nat.exists_eq_add_one.2 (Nat.lt_of_lt_of_le (Nat.succ_pos _) hreach)
      cases hscope : store.scopes[id]? with
      | none =>
          rw [find?, hscope] at hfound
          cases hfound
      | some scope =>
          have hid : id < store.scopes.size := (Array.getElem?_eq_some_iff.1 hscope).1
          rw [find?_of_scope hscope, Option.or_eq_some_iff] at hfound
          rw [find?_of_scope ((h.kept id hid).trans hscope), Option.or_eq_some_iff]
          rcases hfound with hbound | ⟨hunbound, hfound⟩
          · exact .inl hbound
          · obtain ⟨parent, hparent, hfound⟩ := Option.bind_eq_some_iff.1 hfound
            refine .inr ⟨hunbound, Option.bind_eq_some_iff.2 ⟨parent, hparent, ?_⟩⟩
            exact ih (Nat.le_of_succ_le_succ hreach) hfound

/-- What a name has stays the same while no scope changes that exists. -/
theorem lookup?_of_frozen (h : store.Frozen after) (hfound : store.lookup? id name = some value) :
    after.lookup? id name = some value :=
  find?_of_frozen h h.scopes hfound

theorem lookup?_create (parent : Option ScopeId) (bindings : Bindings) (name : String) :
    (store.create parent bindings).2.lookup? store.scopes.size name =
      (bindings.get? name).or
        (parent.bind ((store.create parent bindings).2.find? name store.scopes.size)) := by
  rw [lookup?, size_create]
  have hscope : (store.create parent bindings).2.scopes[store.scopes.size]? =
      some { parent, bindings } := by
    rw [scopes_create, if_pos rfl]
  exact find?_of_scope hscope name _

theorem lookup?_own {parent : Option ScopeId} {bindings : Bindings}
    (hbound : bindings.get? name = some value) :
    (store.create parent bindings).2.lookup? store.scopes.size name = some value := by
  rw [lookup?_create, hbound, Option.some_or]

theorem lookup?_outer {bindings : Bindings} (hunbound : bindings.get? name = none)
    (hfound : store.lookup? scope name = some value) :
    (store.create (some scope) bindings).2.lookup? store.scopes.size name = some value := by
  rw [lookup?_create, hunbound, Option.none_or, Option.bind_some]
  exact find?_of_frozen (store.frozen_create _ _) (Nat.le_refl _) hfound

theorem find?_define_of_ne (h : other ≠ name) (reach : Nat) (id' : ScopeId) :
    (store.define id name value).find? other reach id' = store.find? other reach id' := by
  induction reach generalizing id' with
  | zero => rfl
  | succ reach ih =>
      by_cases hid : id' = id
      · subst hid
        cases hscope : store.scopes[id']? with
        | none => simp only [find?, scopes_define_self, hscope, Option.map_none]
        | some scope =>
            rw [find?_of_scope hscope,
              find?_of_scope (by rw [scopes_define_self, hscope, Option.map_some])]
            simp only [Table.get?_set, if_neg h]
            exact congrArg _ (congrArg (Option.bind scope.parent) (funext ih))
      · simp only [find?, scopes_define_of_ne store id name value hid, ih]

theorem lookup?_define_of_ne (h : other ≠ name) (id' : ScopeId) :
    (store.define id name value).lookup? id' other = store.lookup? id' other := by
  rw [lookup?, size_define]
  exact find?_define_of_ne h _ _

theorem lookup?_define_self (h : id < store.scopes.size) :
    (store.define id name value).lookup? id name = some value := by
  obtain ⟨reach, hreach⟩ := Nat.exists_eq_add_one.2 (Nat.zero_lt_of_lt h)
  have hscope := store.scopes_define_self id name value
  rw [Array.getElem?_eq_getElem h, Option.map_some] at hscope
  rw [lookup?, size_define, hreach, find?_of_scope hscope, Table.get?_set, if_pos rfl,
    Option.some_or]

theorem lt_of_lookup? (h : store.lookup? id name = some value) : id < store.scopes.size := by
  by_contra hid
  rw [lookup?] at h
  cases hsize : store.scopes.size with
  | zero =>
      rw [hsize] at h
      cases h
  | succ reach =>
      rw [hsize, find?, Array.getElem?_eq_none (Nat.not_lt.1 hid)] at h
      cases h

/-- A definition in the scope that was created last is as good as a binding from the start. -/
theorem define_create (parent : Option ScopeId) (bindings : Bindings) (name : String)
    (value : Value) :
    (store.create parent bindings).2.define store.scopes.size name value =
      (store.create parent (bindings.set name value)).2 := by
  have hscopes : ∀ other : ScopeId,
      ((store.create parent bindings).2.define store.scopes.size name value).scopes[other]? =
        (store.create parent (bindings.set name value)).2.scopes[other]? := by
    intro other
    by_cases hother : other = store.scopes.size
    · rw [hother, scopes_define_self, scopes_create, scopes_create, if_pos rfl, if_pos rfl]
      rfl
    · rw [scopes_define_of_ne _ _ _ _ hother, scopes_create, scopes_create, if_neg hother,
        if_neg hother]
  exact Store.mk.injEq _ _ _ _ _ _ ▸ ⟨Array.ext_getElem? hscopes, rfl, rfl⟩

/-! ### Built-in functions -/

/-- Whether a built-in function is found under its own name. -/
def Offers (store : Store) (scope : ScopeId) (function : Builtin) : Prop :=
  ∃ home, store.lookup? scope function.name = some (.builtin function home)

namespace Offers

variable {function : Builtin}

theorem of_frozen (h : store.Offers scope function) (hfrozen : store.Frozen after) :
    after.Offers scope function := by
  obtain ⟨home, hfound⟩ := h
  exact ⟨home, lookup?_of_frozen hfrozen hfound⟩

theorem lt_size (h : store.Offers scope function) : scope < store.scopes.size := by
  obtain ⟨home, hfound⟩ := h
  exact lt_of_lookup? hfound

/-- What a scope does not hide is found from it as from the scope around it. -/
theorem outer (h : store.Offers scope function) {bindings : Bindings}
    (hunbound : bindings.get? function.name = none) :
    (store.create (some scope) bindings).2.Offers store.scopes.size function := by
  obtain ⟨home, hfound⟩ := h
  exact ⟨home, lookup?_outer hunbound hfound⟩

theorem define (h : store.Offers scope function) (hname : function.name ≠ name) (id : ScopeId)
    (value : Value) : (store.define id name value).Offers scope function := by
  obtain ⟨home, hfound⟩ := h
  exact ⟨home, (lookup?_define_of_ne hname scope).trans hfound⟩

end Offers

/-- Whether a function is found under a name, and built-in functions under their own names. -/
structure Knows (store : Store) (scope : ScopeId) (name : String) (function : Value)
    (called : List Builtin) : Prop where
  bound : store.lookup? scope name = some function
  offers : ∀ builtin ∈ called, store.Offers scope builtin

namespace Knows

variable {function : Value} {called : List Builtin}

theorem of_frozen (h : store.Knows scope name function called) (hfrozen : store.Frozen after) :
    after.Knows scope name function called where
  bound := lookup?_of_frozen hfrozen h.bound
  offers := fun builtin hmem => (h.offers builtin hmem).of_frozen hfrozen

/-- Inside of a scope that hides none of the names, all is known that is known outside. -/
theorem inner (h : store.Knows scope name function called) {bindings : Bindings}
    (hname : bindings.get? name = none)
    (hcalled : ∀ builtin ∈ called, bindings.get? builtin.name = none) :
    (store.create (some scope) bindings).2.Knows store.scopes.size name function called where
  bound := lookup?_outer hname h.bound
  offers := fun builtin hmem => (h.offers builtin hmem).outer (hcalled builtin hmem)

/-- A function is known where it has just been defined. -/
theorem of_define (hscope : scope < store.scopes.size)
    (hoffers : ∀ builtin ∈ called, store.Offers scope builtin)
    (hcalled : ∀ builtin ∈ called, builtin.name ≠ name) :
    (store.define scope name function).Knows scope name function called where
  bound := lookup?_define_self hscope
  offers := fun builtin hmem => (hoffers builtin hmem).define (hcalled builtin hmem) scope function

end Knows

/-- A global scope offers all built-in functions. -/
theorem offers_globals {globals : ScopeId}
    (hglobals : store.scopes[globals]? =
      some { parent := none, bindings := globalBindings globals }) (function : Builtin) :
    store.Offers globals function := by
  have hsize : globals < store.scopes.size := (Array.getElem?_eq_some_iff.1 hglobals).1
  obtain ⟨reach, hreach⟩ := Nat.exists_eq_add_one.2 (Nat.zero_lt_of_lt hsize)
  refine ⟨globals, ?_⟩
  rw [lookup?, hreach, find?_of_scope hglobals]
  cases function <;> simp [globalBindings, Builtin.all, Builtin.name, Table.get?_cons]

/-- And so does a new scope within it. -/
theorem offers_begun (function : Builtin) : begun.2.Offers begun.1 function := by
  have hglobals : empty.createGlobal.2.scopes[empty.createGlobal.1]? =
      some { parent := none, bindings := globalBindings empty.createGlobal.1 } := rfl
  exact (offers_globals hglobals function).outer rfl

end Store

/-! ### Evaluating -/

namespace Evaluator

variable {rounds depth : Nat} {scope : ScopeId} {store between after : Store} {evaluate : Evaluator}

theorem all_cons {expr : Expr} {rest : List Expr} {value : Value} {values : List Value}
    (hvalue : evaluate expr scope store = (.ok value, between))
    (hvalues : all evaluate scope rest between = (.ok values, after)) :
    all evaluate scope (expr :: rest) store = (.ok (value :: values), after) := by
  rw [all, Action.bind_of_ok hvalue, Action.bind_of_ok hvalues]
  rfl

/-- Arguments of which none changes the store. -/
theorem all_pair {a b : Expr} {v w : Value} (ha : evaluate a scope store = (.ok v, store))
    (hb : evaluate b scope store = (.ok w, store)) :
    all evaluate scope [a, b] store = (.ok [v, w], store) :=
  all_cons ha (all_cons hb rfl)

/-- Expressions stop where one of them does. -/
theorem all_stops {expr : Expr} {reason : Stop} (rest : List Expr)
    (hstops : (evaluate expr scope store).1 = .error reason) :
    (all evaluate scope (expr :: rest) store).1 = .error reason :=
  Action.bind_of_error hstops

theorem all_cons_stops {expr : Expr} {rest : List Expr} {value : Value} {reason : Stop}
    (hvalue : evaluate expr scope store = (.ok value, between))
    (hstops : (all evaluate scope rest between).1 = .error reason) :
    (all evaluate scope (expr :: rest) store).1 = .error reason := by
  rw [all, Action.bind_of_ok hvalue]
  exact Action.bind_of_error hstops

theorem eval_literal (value : Value) (span : Span) :
    eval rounds (depth + 1) (.literal value span) scope store = (.ok value, store) := rfl

theorem eval_name {name : String} {value : Value} (span : Span)
    (hfound : store.lookup? scope name = some value) :
    eval rounds (depth + 1) (.name name span) scope store = (.ok value, store) := by
  simp only [eval, Action.lookup, hfound]

theorem eval_call {operator : Expr} {arguments : List Expr} {callee : Value} {values : List Value}
    (span : Span) (hform : operator.form? = none)
    (hcallee : eval rounds depth operator scope store = (.ok callee, between))
    (hvalues : all (eval rounds depth) scope arguments between = (.ok values, after)) :
    eval rounds (depth + 1) (.call operator arguments span) scope store =
      apply depth (eval rounds depth) (some span) callee values after := by
  simp only [eval, hform]
  rw [Action.bind_of_ok hcallee, Action.bind_of_ok hvalues]

/-- A call stops where its arguments do. -/
theorem eval_call_stops {operator : Expr} {arguments : List Expr} {callee : Value} {reason : Stop}
    (span : Span) (hform : operator.form? = none)
    (hcallee : eval rounds depth operator scope store = (.ok callee, between))
    (hstops : (all (eval rounds depth) scope arguments between).1 = .error reason) :
    (eval rounds (depth + 1) (.call operator arguments span) scope store).1 = .error reason := by
  simp only [eval, hform]
  rw [Action.bind_of_ok hcallee]
  exact Action.bind_of_error hstops

/-- No built-in function has the name of a form. -/
theorem ofWord?_builtin (function : Builtin) : Form.ofWord? function.name = none := by
  cases function <;> decide

theorem eval_builtin {function : Builtin} {arguments : List Expr} {values : List Value}
    (place span : Span) (hoffers : store.Offers scope function)
    (hvalues : all (eval rounds (depth + 1)) scope arguments store = (.ok values, after)) :
    eval rounds (depth + 2) (.call (.name function.name place) arguments span) scope store =
      function.apply (depth + 1) (some span) values after := by
  obtain ⟨home, hfound⟩ := hoffers
  have hform : (Expr.name function.name place).form? = none := ofWord?_builtin function
  exact eval_call span hform (eval_name place hfound) hvalues

theorem eval_builtin_stops {function : Builtin} {arguments : List Expr} {reason : Stop}
    (place span : Span) (hoffers : store.Offers scope function)
    (hstops : (all (eval rounds (depth + 1)) scope arguments store).1 = .error reason) :
    (eval rounds (depth + 2) (.call (.name function.name place) arguments span) scope store).1 =
      .error reason := by
  obtain ⟨home, hfound⟩ := hoffers
  have hform : (Expr.name function.name place).form? = none := ofWord?_builtin function
  exact eval_call_stops span hform (eval_name place hfound) hstops

theorem ofWord?_word (f : Form) : Form.ofWord? f.word = some f := by
  cases f <;> decide

theorem eval_form (f : Form) (operands : List Expr) (word span : Span) :
    eval rounds (depth + 1) (.call (.name f.word word) operands span) scope =
      form rounds (eval rounds depth) scope f operands span := by
  simp only [eval, Expr.form?, ofWord?_word]

theorem eval_define {name : String} {expr : Expr} {value : Value} (word place span : Span)
    (hvalue : eval rounds depth expr scope store = (.ok value, after)) :
    eval rounds (depth + 1) (.call (.name "define" word) [.name name place, expr] span) scope
      store = (.ok value, after.define scope name value) := by
  refine (congrFun (eval_form .define _ word span) store).trans ?_
  rw [form_define, Action.bind_of_ok hvalue]
  rfl

theorem eval_conditional {test : Expr} {b : Bool} (yes no : Expr) (word span : Span)
    (htest : eval rounds depth test scope store = (.ok (.boolean b), after)) :
    eval rounds (depth + 1) (.call (.name "if" word) [test, yes, no] span) scope store =
      eval rounds depth (if b then yes else no) scope after := by
  refine (congrFun (eval_form .conditional _ word span) store).trans ?_
  rw [form_conditional, Action.bind_of_ok htest]
  cases b <;> rfl

theorem eval_function {names : List String} (parameters : List Expr) (body : Expr)
    (word span : Span) (hnames : parameterNames parameters = .ok names) :
    eval rounds (depth + 1) (.call (.name "fun" word) (parameters ++ [body]) span) scope store =
      (.ok (.closure store.closures names body scope),
        { store with closures := store.closures + 1 }) := by
  refine (congrFun (eval_form .function _ word span) store).trans ?_
  rw [form_function, hnames]
  rfl

theorem last_cons {expr : Expr} {value : Value} (before : Value) (rest : List Expr)
    (hvalue : evaluate expr scope store = (.ok value, after)) :
    last evaluate scope before (expr :: rest) store = last evaluate scope value rest after := by
  rw [last, Action.bind_of_ok hvalue]

theorem repeatWhile_true {test body : Expr} {answer value : Value} (limit : Nat)
    (htest : evaluate test scope store = (.ok answer, between)) (htrue : answer.isTrue = true)
    (hbody : evaluate body scope between = (.ok value, after)) :
    repeatWhile evaluate scope test body (limit + 1) store =
      repeatWhile evaluate scope test body limit after := by
  rw [repeatWhile, Action.bind_of_ok htest, if_pos htrue, Action.bind_of_ok hbody]

theorem repeatWhile_false {test : Expr} (body : Expr) (limit : Nat)
    (htest : evaluate test scope store = (.ok (.boolean false), after)) :
    repeatWhile evaluate scope test body (limit + 1) store = (.ok (.boolean false), after) := by
  rw [repeatWhile, Action.bind_of_ok htest]
  rfl

theorem apply_closure {id : Nat} {parameters : List String} {body : Expr} {values : List Value}
    (limit : Nat) (place : Option Span) (hlength : values.length = parameters.length) :
    apply limit evaluate place (.closure id parameters body scope) values store =
      evaluate body store.scopes.size
        (store.create (some scope) (Table.ofPairs (parameters.zip values))).2 := by
  simp only [apply, if_pos hlength]
  rfl

end Evaluator

end CallLang
