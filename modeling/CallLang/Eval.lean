/-
  CallLang/Eval.lean
  ==================
  **Evaluation.**

  `eval` gives an expression its value in a scope.  A call of a special form
  evaluates its operands as the form wants; every other call evaluates its
  operator and its arguments from left to right and applies the one to the
  others.  A closure is applied in a new scope inside the scope where it was
  made.

  Two numbers bound the work.  `depth` bounds how deep evaluation nests; beyond
  it a program breaks down, as a recursion without end always does.  `rounds`
  bounds how often one loop goes round; it is no limit of the language, and a
  program stopped by it is *unfinished* rather than wrong.
-/
import CallLang.Builtin.Apply
import CallLang.Expr.Reader

namespace CallLang

structure Limits where
  depth : Nat
  rounds : Nat
deriving DecidableEq, Repr

/-- An evaluator gives an expression its value in a scope. -/
abbrev Evaluator := Expr → ScopeId → Action Value

namespace Evaluator

/-! ### Special forms -/

/-- Evaluates expressions from left to right. -/
def all (evaluate : Evaluator) (scope : ScopeId) : List Expr → Action (List Value)
  | [] => Action.pure []
  | expr :: rest =>
    Action.bind (evaluate expr scope) fun value =>
    Action.bind (all evaluate scope rest) fun values =>
    Action.pure (value :: values)

/-- Evaluates expressions from left to right and yields the last value, or the given
    one if there are none. -/
def last (evaluate : Evaluator) (scope : ScopeId) : Value → List Expr → Action Value
  | value, [] => Action.pure value
  | _, expr :: rest =>
    Action.bind (evaluate expr scope) fun value => last evaluate scope value rest

/-- Evaluates a body as long as a test is true, for at most the given number of
    rounds.  A loop has no value of its own and yields false. -/
def repeatWhile (evaluate : Evaluator) (scope : ScopeId) (test body : Expr) : Nat → Action Value
  | 0 => Action.stop .unfinished
  | rounds + 1 =>
    Action.bind (evaluate test scope) fun answer =>
    if answer.isTrue then
      Action.bind (evaluate body scope) fun _ => repeatWhile evaluate scope test body rounds
    else Action.pure (.boolean false)

/-- The names of parameters.  The first that is no name is a mistake at its place,
    which a hole has not. -/
def parameterNames : List Expr → Except Stop (List String)
  | [] => .ok []
  | .name text _ :: rest => (parameterNames rest).map (text :: ·)
  | .hole :: _ => .error (.breakdown .noPlace)
  | expr :: _ => .error (.mistake .badParameter (some expr.span))

/-- Evaluates the call of a form.  All forms but the sequence are particular about
    their operands. -/
def form (rounds : Nat) (evaluate : Evaluator) (scope : ScopeId) (form : Form)
    (operands : List Expr) (span : Span) : Action Value :=
  match form, operands with
  | .conditional, [test, yes, no] =>
    Action.bind (evaluate test scope) fun answer =>
    if answer.isTrue then evaluate yes scope else evaluate no scope
  | .conditional, _ => Action.fail (.formArity form 3 operands.length) (some span)
  | .loop, [test, body] => repeatWhile evaluate scope test body rounds
  | .loop, _ => Action.fail (.formArity form 2 operands.length) (some span)
  | .sequence, _ => last evaluate scope (.boolean false) operands
  | .define, [.name text _, expr] =>
    Action.bind (evaluate expr scope) fun value =>
    Action.bind (Action.define scope text value) fun _ =>
    Action.pure value
  | .define, _ => Action.fail .badDefinition (some span)
  | .function, _ =>
    match operands.getLast? with
    | none => Action.fail .missingBody (some span)
    | some body =>
      Action.bind (Action.ofExcept (parameterNames operands.dropLast)) fun parameters =>
      Action.close parameters body scope

/-! ### Application -/

/-- Applies a value to others.  The place is that of the call, if it is known. -/
def apply (limit : Nat) (evaluate : Evaluator) (place : Option Span) (callee : Value)
    (arguments : List Value) : Action Value :=
  match callee with
  | .closure _ parameters body scope =>
    if arguments.length = parameters.length then
      Action.bind (Action.create (some scope) (Table.ofPairs (parameters.zip arguments)))
        fun inner => evaluate body inner
    else
      Action.fail (.argumentCount (Value.signature parameters) parameters.length arguments.length)
        place
  | .builtin function _ => function.apply limit place arguments
  | _ =>
    Action.bind (Action.ofBreakdown (Value.display limit false callee)) fun shown =>
    Action.fail (.notFunction callee.kind shown) place

end Evaluator

def eval (rounds : Nat) : Nat → Evaluator
  | 0, _, _ => Action.stop (.breakdown .tooDeep)
  | depth + 1, expr, scope =>
    match expr with
    | .literal value _ => Action.pure value
    | .name text span => Action.lookup scope text span
    | .call operator arguments span =>
      match operator.form? with
      | some form => Evaluator.form rounds (eval rounds depth) scope form arguments span
      | none =>
        Action.bind (eval rounds depth operator scope) fun callee =>
        Action.bind (Evaluator.all (eval rounds depth) scope arguments) fun values =>
        Evaluator.apply depth (eval rounds depth) (some span) callee values
    | .hole => Action.fail .hole none

namespace Limits

def eval (limits : Limits) : Evaluator :=
  CallLang.eval limits.rounds limits.depth

def apply (limits : Limits) (place : Option Span) (callee : Value) (arguments : List Value) :
    Action Value :=
  Evaluator.apply limits.depth limits.eval place callee arguments

/-- Reads a program and evaluates it in a new scope inside the given one. -/
def run (limits : Limits) (source : String) (scope : ScopeId) : Action Value :=
  Action.bind (Action.ofExcept (Expr.parse limits.depth source)) fun program =>
  Action.bind (Action.create (some scope) []) fun inner =>
  limits.eval program inner

end Limits

end CallLang
