/-
  CallLang/Proofs/Executions.lean
  ===============================
  **Executions.**

  The execution of a program is a matter of *moments*, in each of which an
  expression is about to be evaluated in a scope.  `Moment.Enters` says which
  evaluation an evaluation starts next once all that comes before has yielded its
  value.  So a moment that can be reached in this way is a moment of the execution,
  and what fails there by itself is the first to fail.

  Limits play no part in it.
-/
import CallLang.Process
import CallLang.Proofs.Breakdowns
import Mathlib.Logic.Relation

namespace CallLang

/-- An expression is about to be evaluated in a scope. -/
structure Moment where
  expr : Expr
  scope : ScopeId
  store : Store

/-- A new scope within the global scope of a process that has just begun. -/
def Store.begun : ScopeId × Store :=
  Process.fresh.store.create (some Process.fresh.globals) []

/-- Whether the application of a value to others is the evaluation of the body of a closure. -/
def Value.Opens (callee : Value) (arguments : List Value) : Prop :=
  ∃ id parameters body scope, callee = .closure id parameters body scope ∧
    arguments.length = parameters.length

namespace Moment

/-- What the evaluation comes to within limits. -/
def run (moment : Moment) (limits : Limits) : Except Stop Value × Store :=
  limits.eval moment.expr moment.scope moment.store

/-- Whether the evaluation yields a value and leaves a store. -/
def Yields (moment : Moment) (value : Value) (after : Store) : Prop :=
  ∃ limits, moment.run limits = (.ok value, after)

/-- Whether expressions yield values, one after another. -/
inductive YieldAll (scope : ScopeId) : Store → List Expr → List Value → Store → Prop where
  | nil {store : Store} : YieldAll scope store [] [] store
  | cons {store between after : Store} {expr : Expr} {value : Value} {exprs : List Expr}
      {values : List Value} (h : Yields ⟨expr, scope, store⟩ value between)
      (hrest : YieldAll scope between exprs values after) :
      YieldAll scope store (expr :: exprs) (value :: values) after

/-- Whether the evaluation comes to the application of a value to others: it is that of a call
    of no form, and operator and arguments yield their values. -/
inductive Applies : Moment → Value → List Value → Store → Prop where
  | call {operator : Expr} {arguments : List Expr} {span : Span} {scope : ScopeId}
      {store between after : Store} {callee : Value} {values : List Value}
      (hform : operator.form? = none) (hoperator : Yields ⟨operator, scope, store⟩ callee between)
      (harguments : YieldAll scope between arguments values after) :
      Applies ⟨.call operator arguments span, scope, store⟩ callee values after

/-- Whether the first evaluation starts the second, everything before having yielded its
    value.  A loop that goes on starts itself anew. -/
inductive Enters : Moment → Moment → Prop where
  | operator {operator : Expr} {arguments : List Expr} {span : Span} {scope : ScopeId}
      {store : Store} (hform : operator.form? = none) :
      Enters ⟨.call operator arguments span, scope, store⟩ ⟨operator, scope, store⟩
  | argument {operator argument : Expr} {before behind : List Expr} {span : Span}
      {scope : ScopeId} {store between after : Store} {callee : Value} {values : List Value}
      (hform : operator.form? = none) (hoperator : Yields ⟨operator, scope, store⟩ callee between)
      (hbefore : YieldAll scope between before values after) :
      Enters ⟨.call operator (before ++ argument :: behind) span, scope, store⟩
        ⟨argument, scope, after⟩
  | body {moment : Moment} {id : Nat} {parameters : List String} {body : Expr} {home : ScopeId}
      {values : List Value} {after : Store}
      (happlies : moment.Applies (.closure id parameters body home) values after)
      (hlength : values.length = parameters.length) :
      Enters moment ⟨body, after.scopes.size,
        (after.create (some home) (Table.ofPairs (parameters.zip values))).2⟩
  | test {operator test yes no : Expr} {span : Span} {scope : ScopeId} {store : Store}
      (hform : operator.form? = some .conditional) :
      Enters ⟨.call operator [test, yes, no] span, scope, store⟩ ⟨test, scope, store⟩
  | branch {operator test yes no : Expr} {span : Span} {scope : ScopeId} {store after : Store}
      {answer : Value} (hform : operator.form? = some .conditional)
      (htest : Yields ⟨test, scope, store⟩ answer after) :
      Enters ⟨.call operator [test, yes, no] span, scope, store⟩
        ⟨if answer.isTrue then yes else no, scope, after⟩
  | loopTest {operator test body : Expr} {span : Span} {scope : ScopeId} {store : Store}
      (hform : operator.form? = some .loop) :
      Enters ⟨.call operator [test, body] span, scope, store⟩ ⟨test, scope, store⟩
  | loopBody {operator test body : Expr} {span : Span} {scope : ScopeId} {store after : Store}
      {answer : Value} (hform : operator.form? = some .loop)
      (htest : Yields ⟨test, scope, store⟩ answer after) (htrue : answer.isTrue) :
      Enters ⟨.call operator [test, body] span, scope, store⟩ ⟨body, scope, after⟩
  | again {operator test body : Expr} {span : Span} {scope : ScopeId}
      {store between after : Store} {answer value : Value}
      (hform : operator.form? = some .loop)
      (htest : Yields ⟨test, scope, store⟩ answer between) (htrue : answer.isTrue)
      (hbody : Yields ⟨body, scope, between⟩ value after) :
      Enters ⟨.call operator [test, body] span, scope, store⟩
        ⟨.call operator [test, body] span, scope, after⟩
  | element {operator expr : Expr} {before behind : List Expr} {span : Span} {scope : ScopeId}
      {store after : Store} {values : List Value} (hform : operator.form? = some .sequence)
      (hbefore : YieldAll scope store before values after) :
      Enters ⟨.call operator (before ++ expr :: behind) span, scope, store⟩ ⟨expr, scope, after⟩
  | definition {operator expr : Expr} {name : String} {place span : Span} {scope : ScopeId}
      {store : Store} (hform : operator.form? = some .define) :
      Enters ⟨.call operator [.name name place, expr] span, scope, store⟩ ⟨expr, scope, store⟩

/-- Whether a moment is one of the execution that starts at another. -/
def Reaches : Moment → Moment → Prop :=
  Relation.ReflTransGen Enters

/-- Whether the evaluation breaks down, limits apart, by itself: at an application that it comes
    to, all of its parts having yielded their values. -/
def Breaks (moment : Moment) (cause : Breakdown) : Prop :=
  ∃ callee values after, moment.Applies callee values after ∧ callee.Breaks values cause

/-- Whether the evaluation stops for a reason by itself, everything that it starts having yielded
    its value: at a name without a binding, at operands or parameters that do not suit a form, or
    at an application that evaluates no body. -/
inductive Fails : Moment → Stop → Prop where
  | unbound {name : String} {span : Span} {scope : ScopeId} {store : Store}
      (h : store.lookup? scope name = none) :
      Fails ⟨.name name span, scope, store⟩ (.mistake (.unbound name) (some span))
  | hole {scope : ScopeId} {store : Store} : Fails ⟨.hole, scope, store⟩ (.mistake .hole none)
  | misused {operator : Expr} {operands : List Expr} {span : Span} {scope : ScopeId}
      {store : Store} {f : Form} (hform : operator.form? = some f) (h : ¬f.Suits operands) :
      Fails ⟨.call operator operands span, scope, store⟩
        (.mistake (f.misuse operands.length) (some span))
  | parameter {operator : Expr} {parameters : List Expr} {body : Expr} {span : Span}
      {scope : ScopeId} {store : Store} {reason : Stop}
      (hform : operator.form? = some .function)
      (h : Evaluator.parameterNames parameters = .error reason) :
      Fails ⟨.call operator (parameters ++ [body]) span, scope, store⟩ reason
  | application {operator : Expr} {arguments : List Expr} {span : Span} {scope : ScopeId}
      {store after : Store} {callee : Value} {values : List Value} {limits : Limits}
      {reason : Stop}
      (happlies : Applies ⟨.call operator arguments span, scope, store⟩ callee values after)
      (hopens : ¬callee.Opens values) (hcut : ¬reason.CutOff)
      (h : (limits.apply (some span) callee values after).1 = .error reason) :
      Fails ⟨.call operator arguments span, scope, store⟩ reason

end Moment

/-! ### One action after another -/

/-- Whether work was not cut off, and other work failed with it if it failed. -/
def Governs {α β : Type} (part : Except Stop α) (whole : Except Stop β) : Prop :=
  Ended part ∧ ∀ reason, part = .error reason → whole = .error reason

namespace Action

variable {α β : Type} {first : Action α} {second : α → Action β} {store after : Store} {a : α}

theorem bind_of_ok (h : first store = (.ok a, after)) :
    Action.bind first second store = second a after := by
  simp only [Action.bind, h]

theorem bind_of_error {reason : Stop} (h : (first store).1 = .error reason) :
    (Action.bind first second store).1 = .error reason := by
  unfold Action.bind
  generalize first store = out at h ⊢
  obtain ⟨result, last⟩ := out
  obtain rfl : result = .error reason := h
  rfl

theorem error_of_bind {reason : Stop} (h : (Action.bind first second store).1 = .error reason) :
    (first store).1 = .error reason ∨
      ∃ a after, first store = (.ok a, after) ∧ (second a after).1 = .error reason := by
  unfold Action.bind at h
  generalize first store = out at h ⊢
  obtain ⟨result, last⟩ := out
  cases result with
  | ok a => exact .inr ⟨a, last, rfl, h⟩
  | error other => exact .inl (congrArg Except.error (Except.error.inj h))

theorem ok_of_bind {b : β} (h : Action.bind first second store = (.ok b, after)) :
    ∃ a between, first store = (.ok a, between) ∧ second a between = (.ok b, after) := by
  unfold Action.bind at h
  generalize first store = out at h ⊢
  obtain ⟨result, last⟩ := out
  cases result with
  | ok a => exact ⟨a, last, rfl, h⟩
  | error reason => cases (Prod.mk.inj h).1

/-- What comes first governs what comes of both. -/
theorem governs_bind (hended : Ended (Action.bind first second store).1) :
    Governs (first store).1 (Action.bind first second store).1 := by
  refine ⟨fun reason hreason => ?_, fun reason hreason => bind_of_error hreason⟩
  exact hended reason (bind_of_error hreason)

end Action

theorem Governs.refl {α : Type} {result : Except Stop α} (hended : Ended result) :
    Governs result result :=
  ⟨hended, fun _ h => h⟩

theorem Governs.trans {α β γ : Type} {part : Except Stop α} {whole : Except Stop β}
    {all : Except Stop γ} (h : Governs part whole) (h' : Governs whole all) : Governs part all :=
  ⟨h.1, fun reason hreason => h'.2 reason (h.2 reason hreason)⟩

/-! ### Rows of expressions -/

namespace Moment

variable {limits : Limits} {scope : ScopeId} {store after : Store} {exprs : List Expr}
  {values : List Value}

/-- An evaluation that is not cut off yields what it yields within any limits. -/
theorem run_of_yields (limits : Limits) {moment : Moment} {value : Value}
    (h : moment.Yields value after) (hended : Ended (moment.run limits).1) :
    moment.run limits = (.ok value, after) := by
  obtain ⟨other, hother⟩ := h
  rw [← hother]
  refine Limits.eval_eq_of_ended hended ?_
  change Ended (moment.run other).1
  rw [hother]
  exact ended_ok value

theorem all_of_yieldAll (h : YieldAll scope store exprs values after)
    (hended : Ended (Evaluator.all limits.eval scope exprs store).1) :
    Evaluator.all limits.eval scope exprs store = (.ok values, after) := by
  induction h with
  | nil => rfl
  | cons hvalue hrest ih =>
      have hfirst := run_of_yields limits hvalue (Action.governs_bind hended).1
      unfold Evaluator.all at hended ⊢
      rw [Action.bind_of_ok hfirst] at hended ⊢
      rw [Action.bind_of_ok (ih (Action.governs_bind hended).1)]
      rfl

theorem yieldAll_of_all (h : Evaluator.all limits.eval scope exprs store = (.ok values, after)) :
    YieldAll scope store exprs values after := by
  induction exprs generalizing store values with
  | nil =>
      obtain ⟨⟨rfl⟩, rfl⟩ := Prod.mk.inj h
      exact .nil
  | cons expr rest ih =>
      obtain ⟨value, between, hvalue, h⟩ := Action.ok_of_bind h
      obtain ⟨others, last, hrest, h⟩ := Action.ok_of_bind h
      obtain ⟨⟨rfl⟩, rfl⟩ := Prod.mk.inj h
      exact .cons ⟨limits, hvalue⟩ (ih hrest)

/-- An expression governs the row that it stands in once all before it have their values. -/
theorem governs_all {before behind : List Expr} {expr : Expr}
    (hbefore : YieldAll scope store before values after)
    (hended : Ended (Evaluator.all limits.eval scope (before ++ expr :: behind) store).1) :
    Governs (limits.eval expr scope after).1
      (Evaluator.all limits.eval scope (before ++ expr :: behind) store).1 := by
  induction hbefore with
  | nil => exact Action.governs_bind hended
  | cons hvalue hrest ih =>
      have hfirst := run_of_yields limits hvalue (Action.governs_bind hended).1
      rw [List.cons_append] at hended ⊢
      unfold Evaluator.all at hended ⊢
      rw [Action.bind_of_ok hfirst] at hended ⊢
      have hsecond := Action.governs_bind hended
      exact (ih hsecond.1).trans hsecond

theorem exists_of_all_error {reason : Stop}
    (h : (Evaluator.all limits.eval scope exprs store).1 = .error reason) :
    ∃ before expr behind values after, exprs = before ++ expr :: behind ∧
      YieldAll scope store before values after ∧
      (limits.eval expr scope after).1 = .error reason := by
  induction exprs generalizing store with
  | nil => cases h
  | cons expr rest ih =>
      rcases Action.error_of_bind h with h | ⟨value, between, hvalue, h⟩
      · exact ⟨[], expr, rest, [], store, rfl, .nil, h⟩
      · rcases Action.error_of_bind h with h | ⟨others, last, -, h⟩
        · obtain ⟨before, other, behind, values, after, rfl, hbefore, hother⟩ := ih h
          exact ⟨expr :: before, other, behind, value :: values, after, rfl,
            .cons ⟨limits, hvalue⟩ hbefore, hother⟩
        · cases h

theorem last_eq (evaluate : Evaluator) (scope : ScopeId) (value : Value) (exprs : List Expr) :
    Evaluator.last evaluate scope value exprs =
      Action.bind (Evaluator.all evaluate scope exprs) fun values =>
        Action.pure (values.getLastD value) := by
  induction exprs generalizing value with
  | nil => rfl
  | cons expr rest ih =>
      funext store
      simp only [Evaluator.last, Evaluator.all, ih, Action.bind]
      generalize evaluate expr scope store = out
      obtain ⟨result, between⟩ := out
      cases result with
      | error reason => rfl
      | ok first =>
          simp only
          generalize Evaluator.all evaluate scope rest between = out
          obtain ⟨result, last⟩ := out
          cases result with
          | error reason => rfl
          | ok values => simp [Action.pure, List.getLast?_cons]

/-! ### Moments of an execution -/

variable {moment : Moment}

/-- Within a depth of zero nothing can be evaluated. -/
theorem exists_depth (hended : Ended (moment.run limits).1) :
    ∃ depth rounds, limits = ⟨depth + 1, rounds⟩ := by
  obtain ⟨depth, rounds⟩ := limits
  cases depth with
  | zero => exact absurd hended not_ended_tooDeep
  | succ depth => exact ⟨depth, rounds, rfl⟩

variable {rounds depth limit : Nat}

theorem run_call {operator : Expr} {arguments : List Expr} {span : Span}
    (hform : operator.form? = none) :
    run ⟨.call operator arguments span, scope, store⟩ ⟨depth + 1, rounds⟩ =
      Action.bind (Limits.eval ⟨depth, rounds⟩ operator scope) (fun callee =>
        Action.bind (Evaluator.all (Limits.eval ⟨depth, rounds⟩) scope arguments) fun values =>
        Limits.apply ⟨depth, rounds⟩ (some span) callee values) store := by
  simp only [run, Limits.eval, eval, hform]
  rfl

theorem run_form {operator : Expr} {operands : List Expr} {span : Span} {f : Form}
    (hform : operator.form? = some f) :
    run ⟨.call operator operands span, scope, store⟩ ⟨depth + 1, rounds⟩ =
      Evaluator.form rounds (Limits.eval ⟨depth, rounds⟩) scope f operands span store := by
  simp only [run, Limits.eval, eval, hform]

/-- An evaluation that comes to an application comes to what the application comes to. -/
theorem run_of_applies {callee : Value} (happlies : moment.Applies callee values after)
    (hended : Ended (moment.run ⟨depth + 1, rounds⟩).1) :
    ∃ place, moment.run ⟨depth + 1, rounds⟩ =
      Limits.apply ⟨depth, rounds⟩ place callee values after := by
  cases happlies with
  | @call operator arguments span scope store between _ _ _ hform hoperator harguments =>
      rw [run_call hform] at hended ⊢
      have hfirst := run_of_yields ⟨depth, rounds⟩ hoperator
        (Action.governs_bind hended).1
      rw [Action.bind_of_ok hfirst] at hended ⊢
      rw [Action.bind_of_ok (all_of_yieldAll harguments (Action.governs_bind hended).1)]
      exact ⟨some span, rfl⟩

/-- A loop whose test is true goes on after its body. -/
theorem repeatWhile_again {test body : Expr} {between : Store} {answer value : Value}
    (htest : Yields ⟨test, scope, store⟩ answer between) (htrue : answer.isTrue)
    (hbody : Yields ⟨body, scope, between⟩ value after)
    (hended : Ended (Evaluator.repeatWhile (Limits.eval ⟨depth, rounds⟩) scope test body
      (limit + 1) store).1) :
    Evaluator.repeatWhile (Limits.eval ⟨depth, rounds⟩) scope test body (limit + 1) store =
      Evaluator.repeatWhile (Limits.eval ⟨depth, rounds⟩) scope test body limit after := by
  have hfirst := run_of_yields ⟨depth, rounds⟩ htest (Action.governs_bind hended).1
  unfold Evaluator.repeatWhile at hended
  rw [Action.bind_of_ok hfirst, if_pos htrue] at hended
  have hsecond := run_of_yields ⟨depth, rounds⟩ hbody (Action.governs_bind hended).1
  rw [Evaluator.repeatWhile, Action.bind_of_ok hfirst, if_pos htrue, Action.bind_of_ok hsecond]

/-- An evaluation that is started governs the one that starts it. -/
theorem governs_of_enters {next : Moment} (h : moment.Enters next)
    (hended : Ended (moment.run limits).1) :
    ∃ limits', Governs (next.run limits').1 (moment.run limits).1 := by
  obtain ⟨depth, rounds, rfl⟩ := exists_depth hended
  cases h with
  | operator hform =>
      rw [run_call hform] at hended ⊢
      exact ⟨⟨depth, rounds⟩, Action.governs_bind hended⟩
  | argument hform hoperator hbefore =>
      rw [run_call hform] at hended ⊢
      have hfirst := run_of_yields ⟨depth, rounds⟩ hoperator
        (Action.governs_bind hended).1
      rw [Action.bind_of_ok hfirst] at hended ⊢
      have hsecond := Action.governs_bind hended
      exact ⟨⟨depth, rounds⟩, (governs_all hbefore hsecond.1).trans hsecond⟩
  | body happlies hlength =>
      obtain ⟨place, hrun⟩ := run_of_applies happlies hended
      refine ⟨⟨depth, rounds⟩, ?_⟩
      rw [hrun] at hended ⊢
      simp only [Limits.apply, Evaluator.apply, if_pos hlength] at hended ⊢
      exact .refl hended
  | test hform =>
      rw [run_form hform, Evaluator.form_conditional] at hended ⊢
      exact ⟨⟨depth, rounds⟩, Action.governs_bind hended⟩
  | branch hform htest =>
      rw [run_form hform, Evaluator.form_conditional] at hended ⊢
      have hfirst := run_of_yields ⟨depth, rounds⟩ htest (Action.governs_bind hended).1
      rw [Action.bind_of_ok hfirst] at hended ⊢
      refine ⟨⟨depth, rounds⟩, ?_⟩
      split at hended
      · next htrue =>
          rw [if_pos htrue, if_pos htrue]
          exact .refl hended
      · next hfalse =>
          rw [if_neg hfalse, if_neg hfalse]
          exact .refl hended
  | loopTest hform =>
      rw [run_form hform, Evaluator.form_loop] at hended ⊢
      cases rounds with
      | zero => exact absurd hended not_ended_unfinished
      | succ rounds => exact ⟨⟨depth, rounds + 1⟩, Action.governs_bind hended⟩
  | loopBody hform htest htrue =>
      rw [run_form hform, Evaluator.form_loop] at hended ⊢
      cases rounds with
      | zero => exact absurd hended not_ended_unfinished
      | succ rounds =>
          have hfirst := run_of_yields ⟨depth, rounds + 1⟩ htest
            (Action.governs_bind hended).1
          unfold Evaluator.repeatWhile at hended ⊢
          rw [Action.bind_of_ok hfirst, if_pos htrue] at hended ⊢
          exact ⟨⟨depth, rounds + 1⟩, Action.governs_bind hended⟩
  | again hform htest htrue hbody =>
      rw [run_form hform, Evaluator.form_loop] at hended ⊢
      cases rounds with
      | zero => exact absurd hended not_ended_unfinished
      | succ rounds =>
          have hagain := repeatWhile_again htest htrue hbody hended
          rw [hagain] at hended ⊢
          have hcut : Evaluator.CutOf Stop.CutOff (Limits.eval ⟨depth, rounds + 1⟩)
              (Limits.eval ⟨depth, rounds + 1⟩) := Limits.cutOf_eval (Nat.le_refl _) (Nat.le_refl _)
          have hmore := (Evaluator.cutOf_repeatWhile hcut _ _ (Nat.le_add_right rounds 1)
            (fun _ => cutOff_unfinished) _).1 hended
          refine ⟨⟨depth + 1, rounds + 1⟩, ?_⟩
          rw [run_form hform, Evaluator.form_loop, hmore]
          exact .refl hended
  | element hform hbefore =>
      rw [run_form hform, Evaluator.form_sequence, last_eq] at hended ⊢
      have hfirst := Action.governs_bind hended
      exact ⟨⟨depth, rounds⟩, (governs_all hbefore hfirst.1).trans hfirst⟩
  | definition hform =>
      rw [run_form hform, Evaluator.form_define] at hended ⊢
      exact ⟨⟨depth, rounds⟩, Action.governs_bind hended⟩

/-! ### What fails first -/

/-- A moment of an execution governs all of the execution. -/
theorem governs_of_reaches {last : Moment} (h : moment.Reaches last)
    (hended : Ended (moment.run limits).1) :
    ∃ limits', Governs (last.run limits').1 (moment.run limits).1 := by
  induction h with
  | refl => exact ⟨limits, .refl hended⟩
  | tail _ henters ih =>
      obtain ⟨between, hbetween⟩ := ih
      obtain ⟨limits', hlast⟩ := governs_of_enters henters hbetween.1
      exact ⟨limits', hlast.trans hbetween⟩

theorem run_of_breaks {cause : Breakdown} (h : moment.Breaks cause)
    (hended : Ended (moment.run limits).1) : (moment.run limits).1 = .error (.breakdown cause) := by
  obtain ⟨callee, values, after, happlies, hbreaks⟩ := h
  obtain ⟨depth, rounds, rfl⟩ := exists_depth hended
  obtain ⟨place, hrun⟩ := run_of_applies happlies hended
  rw [hrun] at hended ⊢
  exact (Evaluator.breaks_iff (hbreaks.not_closure) hended).2 hbreaks

/-- A loop fails in its test or its body, in one of its rounds. -/
theorem exists_of_repeatWhile_error {operator test body : Expr} {span : Span} {reason : Stop}
    (hcut : ¬reason.CutOff) (hform : operator.form? = some .loop)
    (ih : ∀ moment : Moment, (moment.run ⟨depth, rounds⟩).1 = .error reason →
      ∃ last, moment.Reaches last ∧ last.Fails reason)
    (h : (Evaluator.repeatWhile (Limits.eval ⟨depth, rounds⟩) scope test body limit store).1 =
      .error reason) :
    ∃ last, Reaches ⟨.call operator [test, body] span, scope, store⟩ last ∧ last.Fails reason := by
  induction limit generalizing store with
  | zero =>
      obtain rfl := Except.error.inj h
      exact absurd cutOff_unfinished hcut
  | succ limit ihlimit =>
      rcases Action.error_of_bind h with h | ⟨answer, between, htest, h⟩
      · obtain ⟨last, hreaches, hfails⟩ := ih ⟨test, scope, store⟩ h
        exact ⟨last, .head (.loopTest hform) hreaches, hfails⟩
      · have htest : Yields ⟨test, scope, store⟩ answer between := ⟨_, htest⟩
        split at h
        · next htrue =>
            rcases Action.error_of_bind h with h | ⟨value, after, hbody, h⟩
            · obtain ⟨last, hreaches, hfails⟩ := ih ⟨body, scope, between⟩ h
              exact ⟨last, .head (.loopBody hform htest htrue) hreaches, hfails⟩
            · have hbody : Yields ⟨body, scope, between⟩ value after := ⟨_, hbody⟩
              obtain ⟨last, hreaches, hfails⟩ := ihlimit h
              exact ⟨last, .head (.again hform htest htrue hbody) hreaches, hfails⟩
        · cases h

theorem exists_of_form_error {operator : Expr} {f : Form} {operands : List Expr} {span : Span}
    {reason : Stop} (hcut : ¬reason.CutOff) (hform : operator.form? = some f)
    (ih : ∀ moment : Moment, (moment.run ⟨depth, rounds⟩).1 = .error reason →
      ∃ last, moment.Reaches last ∧ last.Fails reason)
    (h : (Evaluator.form rounds (Limits.eval ⟨depth, rounds⟩) scope f operands span store).1 =
      .error reason) :
    ∃ last, Reaches ⟨.call operator operands span, scope, store⟩ last ∧ last.Fails reason := by
  cases f.use operands with
  | conditional test yes no =>
      rcases Action.error_of_bind h with h | ⟨answer, between, htest, h⟩
      · obtain ⟨last, hreaches, hfails⟩ := ih ⟨test, scope, store⟩ h
        exact ⟨last, .head (.test hform) hreaches, hfails⟩
      · have hbranch : (run ⟨if answer.isTrue then yes else no, scope, between⟩
            ⟨depth, rounds⟩).1 = .error reason := by
          split at h
          · next htrue => rw [if_pos htrue]; exact h
          · next hfalse => rw [if_neg hfalse]; exact h
        obtain ⟨last, hreaches, hfails⟩ := ih _ hbranch
        exact ⟨last, .head (.branch hform ⟨_, htest⟩) hreaches, hfails⟩
  | loop test body => exact exists_of_repeatWhile_error hcut hform ih h
  | sequence operands =>
      rw [Evaluator.form_sequence, last_eq] at h
      rcases Action.error_of_bind h with h | ⟨values, after, -, h⟩
      · obtain ⟨before, expr, behind, values, after, rfl, hbefore, h⟩ := exists_of_all_error h
        obtain ⟨last, hreaches, hfails⟩ := ih ⟨expr, scope, after⟩ h
        exact ⟨last, .head (.element hform hbefore) hreaches, hfails⟩
      · cases h
  | define name place expr =>
      rcases Action.error_of_bind h with h | ⟨value, after, -, h⟩
      · obtain ⟨last, hreaches, hfails⟩ := ih ⟨expr, scope, store⟩ h
        exact ⟨last, .head (.definition hform) hreaches, hfails⟩
      · cases h
  | function parameters body =>
      rw [Evaluator.form_function] at h
      rcases Action.error_of_bind h with h | ⟨names, after, -, h⟩
      · exact ⟨_, .refl, .parameter hform h⟩
      · cases h
  | wrong hwrong =>
      rw [Evaluator.form_misused rounds _ scope span hwrong] at h
      obtain rfl := Except.error.inj h
      exact ⟨_, .refl, .misused hform hwrong⟩

/-- An application fails by itself, or in the body of a closure. -/
theorem exists_of_apply_error {operator : Expr} {arguments : List Expr} {span : Span}
    {callee : Value} {reason : Stop} (hcut : ¬reason.CutOff)
    (happlies : Applies ⟨.call operator arguments span, scope, store⟩ callee values after)
    (ih : ∀ moment : Moment, (moment.run ⟨depth, rounds⟩).1 = .error reason →
      ∃ last, moment.Reaches last ∧ last.Fails reason)
    (h : (Limits.apply ⟨depth, rounds⟩ (some span) callee values after).1 = .error reason) :
    ∃ last, Reaches ⟨.call operator arguments span, scope, store⟩ last ∧ last.Fails reason := by
  by_cases hopens : callee.Opens values
  · obtain ⟨id, parameters, body, home, rfl, hlength⟩ := hopens
    simp only [Limits.apply, Evaluator.apply, if_pos hlength] at h
    obtain ⟨last, hreaches, hfails⟩ := ih ⟨body, after.scopes.size,
      (after.create (some home) (Table.ofPairs (parameters.zip values))).2⟩ h
    exact ⟨last, .head (.body happlies hlength) hreaches, hfails⟩
  · exact ⟨_, .refl, .application happlies hopens hcut h⟩

/-- An evaluation that stops, but is not cut off, comes to a moment that fails by itself. -/
theorem exists_of_error {reason : Stop} (hcut : ¬reason.CutOff)
    (h : (moment.run limits).1 = .error reason) :
    ∃ last, moment.Reaches last ∧ last.Fails reason := by
  obtain ⟨depth, rounds⟩ := limits
  induction depth generalizing moment with
  | zero =>
      obtain rfl := Except.error.inj h
      exact absurd cutOff_tooDeep hcut
  | succ depth ih =>
      obtain ⟨expr, scope, store⟩ := moment
      cases expr with
      | literal value span => cases h
      | name text span =>
          simp only [run, Limits.eval, eval, Action.lookup] at h
          split at h
          · cases h
          · next hunbound =>
              obtain rfl := Except.error.inj h
              exact ⟨_, .refl, .unbound hunbound⟩
      | hole =>
          obtain rfl := Except.error.inj h
          exact ⟨_, .refl, .hole⟩
      | call operator arguments span =>
          cases hform : operator.form? with
          | some f =>
              rw [run_form hform] at h
              exact exists_of_form_error hcut hform (fun _ => ih) h
          | none =>
              rw [run_call hform] at h
              rcases Action.error_of_bind h with h | ⟨callee, between, hoperator, h⟩
              · obtain ⟨last, hreaches, hfails⟩ := @ih ⟨operator, scope, store⟩ h
                exact ⟨last, .head (.operator hform) hreaches, hfails⟩
              have hoperator : Yields ⟨operator, scope, store⟩ callee between := ⟨_, hoperator⟩
              rcases Action.error_of_bind h with h | ⟨values, after, harguments, h⟩
              · obtain ⟨before, argument, behind, values, after, rfl, hbefore, h⟩ :=
                  exists_of_all_error h
                obtain ⟨last, hreaches, hfails⟩ := @ih ⟨argument, scope, after⟩ h
                exact ⟨last, .head (.argument hform hoperator hbefore) hreaches, hfails⟩
              have happlies : Applies ⟨.call operator arguments span, scope, store⟩ callee values
                  after := .call hform hoperator (yieldAll_of_all harguments)
              exact exists_of_apply_error hcut happlies (fun _ => ih) h

/-- What fails with a breakdown is an application, unless it is a hole among parameters. -/
theorem Fails.breaks {cause : Breakdown} (hplace : cause ≠ .noPlace)
    (h : moment.Fails (.breakdown cause)) : moment.Breaks cause := by
  cases h with
  | parameter _ h =>
      rcases Evaluator.error_of_parameterNames h with ⟨-, hreason⟩ | ⟨place, hreason⟩
      · exact absurd (Stop.breakdown.inj hreason) hplace
      · cases hreason
  | @application operator arguments span scope store after callee values limits _ happlies hopens
      hcut h =>
      have hended : Ended (limits.apply (some span) callee values after).1 := by
        rw [h]
        rintro _ ⟨rfl⟩
        exact hcut
      refine ⟨callee, values, after, happlies, (Evaluator.breaks_iff ?_ hended).1 h⟩
      rintro id parameters body home rfl
      have hlength : values.length ≠ parameters.length :=
        fun hlength => hopens ⟨id, parameters, body, home, rfl, hlength⟩
      simp only [Limits.apply, Evaluator.apply, if_neg hlength] at h
      cases h

theorem exists_of_breaks {cause : Breakdown} (hdeep : cause ≠ .tooDeep) (hplace : cause ≠ .noPlace)
    (h : (moment.run limits).1 = .error (.breakdown cause)) :
    ∃ last, moment.Reaches last ∧ last.Breaks cause := by
  have hended : Ended (moment.run limits).1 := by
    rw [h]
    exact ended_breakdown hdeep
  obtain ⟨last, hreaches, hfails⟩ := exists_of_error (hended _ h) h
  exact ⟨last, hreaches, hfails.breaks hplace⟩

/-- An evaluation that is not cut off breaks down exactly if it comes to a moment that does, and
    for the same cause. -/
theorem run_breaks_iff {cause : Breakdown} (hplace : cause ≠ .noPlace)
    (hended : Ended (moment.run limits).1) :
    (moment.run limits).1 = .error (.breakdown cause) ↔
      ∃ last, moment.Reaches last ∧ last.Breaks cause := by
  constructor
  · intro h
    refine exists_of_breaks ?_ hplace h
    rintro rfl
    rw [h] at hended
    exact not_ended_tooDeep hended
  · rintro ⟨last, hreaches, hbreaks⟩
    obtain ⟨limits', hlast⟩ := governs_of_reaches hreaches hended
    exact hlast.2 _ (run_of_breaks hbreaks hlast.1)

end Moment

end CallLang
