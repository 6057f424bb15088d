/-
  CallLang/Proofs/Steps.lean
  ==========================
  **The steps of evaluation.**

  Which operands suit which form, which arguments suit which built-in function,
  and what happens to those that do not: these case distinctions are made here
  once, so that a proof about evaluation has one case for each thing that can
  happen.
-/
import CallLang.Eval
import Mathlib.Data.List.Basic

namespace CallLang

/-! ### Forms -/

namespace Form

/-- Which operands suit a form. -/
def Suits : Form → List Expr → Prop
  | .conditional, operands => operands.length = 3
  | .loop, operands => operands.length = 2
  | .sequence, _ => True
  | .define, operands => ∃ name place expr, operands = [.name name place, expr]
  | .function, operands => operands ≠ []

/-- What is wrong with operands that do not suit. -/
def misuse (form : Form) (count : Nat) : Mistake :=
  match form with
  | .conditional => .formArity form 3 count
  | .loop => .formArity form 2 count
  | .function => .missingBody
  | _ => .badDefinition

/-- The ways in which a form can be called. -/
inductive Use : Form → List Expr → Prop where
  | conditional (test yes no : Expr) : Use .conditional [test, yes, no]
  | loop (test body : Expr) : Use .loop [test, body]
  | sequence (operands : List Expr) : Use .sequence operands
  | define (name : String) (place : Span) (expr : Expr) : Use .define [.name name place, expr]
  | function (parameters : List Expr) (body : Expr) : Use .function (parameters ++ [body])
  | wrong {form : Form} {operands : List Expr} (h : ¬form.Suits operands) : Use form operands

theorem use (form : Form) (operands : List Expr) : form.Use operands := by
  by_cases h : form.Suits operands
  · cases form with
    | conditional =>
        obtain ⟨test, yes, no, rfl⟩ := List.length_eq_three.1 h
        exact .conditional test yes no
    | loop =>
        obtain ⟨test, body, rfl⟩ := List.length_eq_two.1 h
        exact .loop test body
    | sequence => exact .sequence operands
    | define =>
        obtain ⟨name, place, expr, rfl⟩ := h
        exact .define name place expr
    | function =>
        rcases List.eq_nil_or_concat operands with rfl | ⟨parameters, body, rfl⟩
        · exact absurd rfl h
        · rw [List.concat_eq_append]
          exact .function parameters body
  · exact .wrong h

end Form

namespace Evaluator

variable (rounds : Nat) (evaluate : Evaluator) (scope : ScopeId) (span : Span)

theorem form_conditional (test yes no : Expr) :
    form rounds evaluate scope .conditional [test, yes, no] span =
      Action.bind (evaluate test scope) fun answer =>
        if answer.isTrue then evaluate yes scope else evaluate no scope := rfl

theorem form_loop (test body : Expr) :
    form rounds evaluate scope .loop [test, body] span =
      repeatWhile evaluate scope test body rounds := rfl

theorem form_sequence (operands : List Expr) :
    form rounds evaluate scope .sequence operands span =
      last evaluate scope (.boolean false) operands := rfl

theorem form_define (name : String) (place : Span) (expr : Expr) :
    form rounds evaluate scope .define [.name name place, expr] span =
      Action.bind (evaluate expr scope) fun value =>
      Action.bind (Action.define scope name value) fun _ => Action.pure value := rfl

theorem form_function (parameters : List Expr) (body : Expr) :
    form rounds evaluate scope .function (parameters ++ [body]) span =
      Action.bind (Action.ofExcept (parameterNames parameters)) fun names =>
        Action.close names body scope := by
  simp [form]

/-- A call with operands that do not suit fails at its place, whatever the evaluator. -/
theorem form_misused {f : Form} {operands : List Expr} (h : ¬f.Suits operands) :
    form rounds evaluate scope f operands span =
      Action.fail (f.misuse operands.length) (some span) := by
  cases f with
  | conditional =>
      rcases operands with _ | ⟨test, _ | ⟨yes, _ | ⟨no, _ | ⟨other, rest⟩⟩⟩⟩
      case cons.cons.cons.nil => exact absurd rfl h
      all_goals rfl
  | loop =>
      rcases operands with _ | ⟨test, _ | ⟨body, _ | ⟨other, rest⟩⟩⟩
      case cons.cons.nil => exact absurd rfl h
      all_goals rfl
  | sequence => exact absurd trivial h
  | define =>
      rcases operands with _ | ⟨target, _ | ⟨expr, _ | ⟨other, rest⟩⟩⟩
      case nil => rfl
      case cons.cons.nil =>
        cases target with
        | name name place => exact absurd ⟨name, place, expr, rfl⟩ h
        | _ => rfl
      all_goals cases target <;> rfl
  | function =>
      obtain rfl : operands = [] := Decidable.not_not.1 h
      rfl

/-- The names of parameters cannot be had if one of them is a hole or no name. -/
theorem error_of_parameterNames {parameters : List Expr} {reason : Stop}
    (h : parameterNames parameters = .error reason) :
    (.hole ∈ parameters ∧ reason = .breakdown .noPlace) ∨
      ∃ place, reason = .mistake .badParameter place := by
  induction parameters with
  | nil => cases h
  | cons parameter rest ih =>
      cases parameter with
      | name text span =>
          have hrest : parameterNames rest = .error reason := by
            simp only [parameterNames] at h
            generalize parameterNames rest = names at h ⊢
            cases names with
            | ok names => cases h
            | error other => exact congrArg Except.error (Except.error.inj h)
          rcases ih hrest with ⟨hmem, hreason⟩ | hreason
          · exact .inl ⟨List.mem_cons_of_mem _ hmem, hreason⟩
          · exact .inr hreason
      | hole => exact .inl ⟨List.mem_cons_self, (Except.error.inj h).symm⟩
      | _ => exact .inr ⟨_, (Except.error.inj h).symm⟩

end Evaluator

/-! ### Built-in functions -/

namespace Builtin

/-- The ways in which a built-in function can be applied. -/
inductive Use : Builtin → List Value → Prop where
  | add (a b : Value) : Use .add [a, b]
  | subtract (a b : Value) : Use .subtract [a, b]
  | multiply (a b : Value) : Use .multiply [a, b]
  | divide (a b : Value) : Use .divide [a, b]
  | equal (a b : Value) : Use .equal [a, b]
  | less (a b : Value) : Use .less [a, b]
  | greater (a b : Value) : Use .greater [a, b]
  | print (value : Value) : Use .print [value]
  | array (items : List Value) : Use .array items
  | length (value : Value) : Use .length [value]
  | element (value index : Value) : Use .element [value, index]
  | wrong {function : Builtin} {arguments : List Value} {expected : Nat}
      (hexpected : function.arity = some expected) (hlength : arguments.length ≠ expected) :
      Use function arguments

theorem use (function : Builtin) (arguments : List Value) : function.Use arguments := by
  rcases arguments with _ | ⟨a, _ | ⟨b, _ | ⟨c, rest⟩⟩⟩
  · cases function with
    | array => exact .array []
    | _ => exact .wrong rfl (by simp)
  · cases function with
    | array => exact .array [a]
    | print => exact .print a
    | length => exact .length a
    | _ => exact .wrong rfl (by simp)
  · cases function with
    | add => exact .add a b
    | subtract => exact .subtract a b
    | multiply => exact .multiply a b
    | divide => exact .divide a b
    | equal => exact .equal a b
    | less => exact .less a b
    | greater => exact .greater a b
    | element => exact .element a b
    | array => exact .array [a, b]
    | _ => exact .wrong rfl (by simp)
  · cases function with
    | array => exact .array (a :: b :: c :: rest)
    | _ => exact .wrong rfl (by simp)

/-- An application to the wrong number of arguments fails at its place. -/
theorem apply_misused {function : Builtin} {arguments : List Value} {expected : Nat}
    (hexpected : function.arity = some expected) (hlength : arguments.length ≠ expected)
    (limit : Nat) (place : Option Span) :
    function.apply limit place arguments =
      Action.fail (.argumentCount function.name expected arguments.length) place := by
  rcases arguments with _ | ⟨a, _ | ⟨b, _ | ⟨c, rest⟩⟩⟩
  all_goals
    cases function <;> cases hexpected <;> first | rfl | exact absurd rfl hlength

end Builtin

end CallLang
