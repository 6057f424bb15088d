/-
  CallLang/Proofs/Locality.lean
  =============================
  **Writes are local.**

  Evaluating an expression in a scope binds names in this scope and in no other
  that exists already, and only those names that the expression defines outside
  of all functions.  What happens inside a function happens in a scope of its
  own, so applying a value leaves every scope as it is.

  A relation that holds between a store and itself and that can be chained is
  kept by all of evaluation if it is kept by its smallest actions.  The proofs
  below say so once, for any such relation, and then name two of them: `Frozen`
  for application and `Local` for evaluation.
-/
import CallLang.Proofs.Scopes
import CallLang.Proofs.Steps
import Mathlib.Order.Defs.Unbundled
import Mathlib.Tactic.SplitIfs

namespace CallLang

/-! ### What changes -/

/-- Whether an expression has a definition of a name that is not inside a function.
    The name is the first operand of the definition. -/
inductive Expr.Defines : Expr → String → Prop where
  | here {operator : Expr} {operands : List Expr} {span place : Span} {name : String}
      (hform : operator.form? = some .define) :
      Expr.Defines (.call operator (.name name place :: operands) span) name
  | operator {operator : Expr} {operands : List Expr} {span : Span} {name : String}
      (hform : operator.form? ≠ some .function) (h : operator.Defines name) :
      Expr.Defines (.call operator operands span) name
  | operand {operator operand : Expr} {operands : List Expr} {span : Span} {name : String}
      (hform : operator.form? ≠ some .function) (hmem : operand ∈ operands)
      (h : operand.Defines name) : Expr.Defines (.call operator operands span) name

/-- What no action undoes: scopes and closures are never discarded, and what is printed
    stays printed. -/
structure Store.Grows (before after : Store) : Prop where
  scopes : before.scopes.size ≤ after.scopes.size
  closures : before.closures ≤ after.closures
  printed : before.printed.toList <+: after.printed.toList

/-- All scopes that have existed before are as they were. -/
structure Store.Frozen (before after : Store) : Prop extends Store.Grows before after where
  kept : ∀ id, id < before.scopes.size → after.scopes[id]? = before.scopes[id]?

/-- All scopes that have existed before are as they were, except that certain names may
    have been bound, or bound again, in one of them. -/
structure Store.Local (scope : ScopeId) (names : String → Prop) (before after : Store) : Prop
    extends Store.Grows before after where
  others : ∀ id, id < before.scopes.size → id ≠ scope → after.scopes[id]? = before.scopes[id]?
  own : ∀ old, before.scopes[scope]? = some old →
    ∃ new, after.scopes[scope]? = some new ∧ new.parent = old.parent ∧
      (∀ name, (old.bindings.get? name).isSome → (new.bindings.get? name).isSome) ∧
      ∀ name, new.bindings.get? name ≠ old.bindings.get? name → names name

namespace Store

theorem Grows.refl (store : Store) : Grows store store :=
  ⟨Nat.le_refl _, Nat.le_refl _, List.prefix_rfl⟩

theorem Grows.trans {a b c : Store} (hab : Grows a b) (hbc : Grows b c) : Grows a c :=
  ⟨Nat.le_trans hab.scopes hbc.scopes, Nat.le_trans hab.closures hbc.closures,
    hab.printed.trans hbc.printed⟩

instance : IsPreorder Store Frozen where
  refl store := { Grows.refl store with kept := fun _ _ => rfl }
  trans a b c hab hbc :=
    { hab.toGrows.trans hbc.toGrows with
      kept := fun id hid => by
        rw [hbc.kept id (Nat.lt_of_lt_of_le hid hab.scopes), hab.kept id hid] }

variable {scope : ScopeId} {names : String → Prop}

instance : IsPreorder Store (Local scope names) where
  refl store :=
    { Grows.refl store with
      others := fun _ _ _ => rfl
      own := fun old hold => ⟨old, hold, rfl, fun _ h => h, fun _ h => absurd rfl h⟩ }
  trans a b c hab hbc :=
    { hab.toGrows.trans hbc.toGrows with
      others := fun id hid hne => by
        rw [hbc.others id (Nat.lt_of_lt_of_le hid hab.scopes) hne, hab.others id hid hne]
      own := by
        intro old hold
        obtain ⟨mid, hmid, hparent, hkeeps, hnames⟩ := hab.own old hold
        obtain ⟨new, hnew, hparent', hkeeps', hnames'⟩ := hbc.own mid hmid
        refine ⟨new, hnew, hparent'.trans hparent, ?_, ?_⟩
        · intro name hbound
          exact hkeeps' name (hkeeps name hbound)
        · intro name hchanged
          by_cases hlater : new.bindings.get? name = mid.bindings.get? name
          · exact hnames name (hlater ▸ hchanged)
          · exact hnames' name hlater }

theorem Frozen.local {before after : Store} (h : Frozen before after) :
    Local scope names before after := by
  refine { h.toGrows with others := fun id hid _ => h.kept id hid, own := ?_ }
  intro old hold
  have hid : scope < before.scopes.size := by
    obtain ⟨hid, -⟩ := Array.getElem?_eq_some_iff.1 hold
    exact hid
  exact ⟨old, (h.kept scope hid).trans hold, rfl, fun _ h => h, fun _ h => absurd rfl h⟩

theorem Local.mono {more : String → Prop} {before after : Store}
    (h : Local scope names before after) (hmore : ∀ name, names name → more name) :
    Local scope more before after := by
  refine { h.toGrows with others := h.others, own := ?_ }
  intro old hold
  obtain ⟨new, hnew, hparent, hkeeps, hnames⟩ := h.own old hold
  exact ⟨new, hnew, hparent, hkeeps, fun name hchanged => hmore name (hnames name hchanged)⟩

theorem frozen_create (store : Store) (parent : Option ScopeId) (bindings : Bindings) :
    Frozen store (store.create parent bindings).2 where
  scopes := by simp
  closures := by simp
  printed := by simp
  kept := fun id hid => scopes_create_of_lt store parent bindings hid

theorem frozen_print (store : Store) (text : String) : Frozen store (store.print text) where
  scopes := by simp
  closures := by simp
  printed := by simp
  kept := fun _ _ => by simp

theorem frozen_close (store : Store) :
    Frozen store { store with closures := store.closures + 1 } where
  scopes := Nat.le_refl _
  closures := Nat.le_succ _
  printed := List.prefix_rfl
  kept := fun _ _ => rfl

theorem grows_define (store : Store) (id : ScopeId) (name : String) (value : Value) :
    Grows store (store.define id name value) where
  scopes := by simp
  closures := by simp
  printed := by simp

theorem local_define (store : Store) {name : String} (value : Value) (hname : names name) :
    Local scope names store (store.define scope name value) where
  toGrows := store.grows_define scope name value
  others := fun id _ hne => scopes_define_of_ne store scope name value hne
  own := by
    intro old hold
    refine ⟨{ old with bindings := old.bindings.set name value }, ?_, rfl, ?_, ?_⟩
    · rw [scopes_define_self, hold]
      rfl
    · intro other hbound
      by_cases heq : other = name
      · simp [Table.get?_set, heq]
      · simpa [Table.get?_set, heq] using hbound
    · intro other hchanged
      rw [Table.get?_set] at hchanged
      by_cases heq : other = name
      · exact heq ▸ hname
      · exact absurd (if_neg heq) hchanged

end Store

/-! ### Chains of actions -/

/-- An action keeps a relation between the store before it and the store after it,
    whether it stops early or not. -/
def Action.Keeps {α : Type} (R : Store → Store → Prop) (action : Action α) : Prop :=
  ∀ store, R store (action store).2

namespace Action.Keeps

variable {α β : Type} {R : Store → Store → Prop}

theorem mono {S : Store → Store → Prop} {action : Action α} (h : action.Keeps R)
    (hle : ∀ before after, R before after → S before after) : action.Keeps S :=
  fun store => hle _ _ (h store)

variable [IsPreorder Store R]

theorem pure (a : α) : (Action.pure a).Keeps R := fun store => refl_of R store

theorem stop (reason : Stop) : (Action.stop (α := α) reason).Keeps R := fun store => refl_of R store

theorem fail (cause : Mistake) (span : Option Span) : (Action.fail (α := α) cause span).Keeps R :=
  stop _

theorem ofExcept (result : Except Stop α) : (Action.ofExcept result).Keeps R :=
  fun store => refl_of R store

theorem ofBreakdown (result : Except Breakdown α) : (Action.ofBreakdown result).Keeps R := by
  cases result with
  | ok a => exact pure a
  | error cause => exact stop _

theorem lookup (id : ScopeId) (name : String) (span : Span) :
    (Action.lookup id name span).Keeps R := by
  intro store
  unfold Action.lookup
  split <;> exact refl_of R store

theorem bind {first : Action α} {second : α → Action β} (hfirst : first.Keeps R)
    (hsecond : ∀ a, (second a).Keeps R) : (Action.bind first second).Keeps R := by
  intro store
  have hstep := hfirst store
  unfold Action.bind
  split
  · next a after heq =>
      rw [heq] at hstep
      exact trans_of R hstep (hsecond a after)
  · next reason after heq =>
      rw [heq] at hstep
      exact hstep

variable {evaluate : Evaluator} {scope : ScopeId}

theorem all {exprs : List Expr} (h : ∀ expr ∈ exprs, (evaluate expr scope).Keeps R) :
    (Evaluator.all evaluate scope exprs).Keeps R := by
  induction exprs with
  | nil => exact pure []
  | cons expr rest ih =>
      refine bind (h expr (by simp)) fun value => bind (ih ?_) fun values => pure _
      intro other hmem
      exact h other (by simp [hmem])

theorem last {exprs : List Expr} (value : Value)
    (h : ∀ expr ∈ exprs, (evaluate expr scope).Keeps R) :
    (Evaluator.last evaluate scope value exprs).Keeps R := by
  induction exprs generalizing value with
  | nil => exact pure value
  | cons expr rest ih =>
      refine bind (h expr (by simp)) fun value => ih value ?_
      intro other hmem
      exact h other (by simp [hmem])

theorem repeatWhile {test body : Expr} (rounds : Nat) (htest : (evaluate test scope).Keeps R)
    (hbody : (evaluate body scope).Keeps R) :
    (Evaluator.repeatWhile evaluate scope test body rounds).Keeps R := by
  induction rounds with
  | zero => exact stop _
  | succ rounds ih =>
      refine bind htest fun answer => ?_
      split
      · exact bind hbody fun _ => ih
      · exact pure _

end Action.Keeps

/-! ### Application -/

namespace Builtin

open CallLang.Action (Keeps)

variable {R : Store → Store → Prop} [IsPreorder Store R]

theorem keeps_arithmetic (function : Builtin) (operation : Number → Number → Option Number)
    (a b : Value) (place : Option Span) : (arithmetic function operation a b place).Keeps R := by
  unfold arithmetic
  split
  · split
    · exact Keeps.pure _
    · exact Keeps.stop _
  · exact Keeps.fail _ _

theorem keeps_sum (a b : Value) (place : Option Span) : (sum a b place).Keeps R := by
  unfold sum
  split
  · exact Keeps.pure _
  · exact keeps_arithmetic _ _ _ _ _
  · exact Keeps.fail _ _

theorem keeps_quotient (a b : Value) (place : Option Span) : (quotient a b place).Keeps R := by
  unfold quotient
  split
  · split
    · exact Keeps.pure _
    · exact Keeps.fail _ _
    · exact Keeps.fail _ _
  · exact Keeps.fail _ _

theorem keeps_comparison (function : Builtin) (numbers : Number → Number → Bool)
    (strings : String → String → Bool) (a b : Value) (place : Option Span) :
    (comparison function numbers strings a b place).Keeps R := by
  unfold comparison
  split
  · exact Keeps.pure _
  · exact Keeps.pure _
  · exact Keeps.fail _ _

theorem keeps_item (items : List Value) (index : Number) (place : Option Span) :
    (item items index place).Keeps R := by
  unfold item
  simp only
  split
  · exact Keeps.pure _
  · split
    · exact Keeps.fail _ _
    · exact Keeps.stop _

/-- A built-in function does nothing to the store but print. -/
theorem keeps_apply (hprint : ∀ text, (Action.print text).Keeps R) (limit : Nat)
    (place : Option Span) (function : Builtin) (arguments : List Value) :
    (function.apply limit place arguments).Keeps R := by
  cases function.use arguments with
  | add a b => exact keeps_sum a b place
  | subtract a b => exact keeps_arithmetic _ _ a b place
  | multiply a b => exact keeps_arithmetic _ _ a b place
  | divide a b => exact keeps_quotient a b place
  | equal a b => exact Keeps.bind (Keeps.ofBreakdown _) fun answer => Keeps.pure _
  | less a b => exact keeps_comparison _ _ _ a b place
  | greater a b => exact keeps_comparison _ _ _ a b place
  | print value =>
      refine Keeps.bind (Keeps.ofBreakdown _) fun text => ?_
      exact Keeps.bind (hprint text) fun _ => Keeps.pure value
  | array items => exact Keeps.pure _
  | length value => cases value <;> first | exact Keeps.pure _ | exact Keeps.fail _ _
  | element value index =>
      cases value with
      | array items =>
          cases index with
          | number n => exact keeps_item items n place
          | _ => exact Keeps.fail _ _
      | _ => exact Keeps.fail _ _
  | wrong hexpected hlength =>
      rw [apply_misused hexpected hlength]
      exact Keeps.fail _ _

end Builtin

namespace Evaluator

open CallLang.Action (Keeps)

variable {evaluate : Evaluator}

/-- The scope that a closure is applied in is new, so what the body defines changes no
    scope that has existed before. -/
theorem frozen_apply
    (hevaluate : ∀ expr scope, (evaluate expr scope).Keeps (Store.Local scope expr.Defines))
    (limit : Nat) (place : Option Span) (callee : Value) (arguments : List Value) :
    (apply limit evaluate place callee arguments).Keeps Store.Frozen := by
  unfold apply
  split
  · next id parameters body scope =>
      split
      · intro store
        have hcreate := Store.frozen_create store (some scope)
          (Table.ofPairs (parameters.zip arguments))
        have hbody := hevaluate body store.scopes.size
          (store.create (some scope) (Table.ofPairs (parameters.zip arguments))).2
        refine { hcreate.toGrows.trans hbody.toGrows with kept := ?_ }
        intro old hold
        rw [← hcreate.kept old hold]
        exact hbody.others old (Nat.lt_of_lt_of_le hold hcreate.scopes) (Nat.ne_of_lt hold)
      · exact Keeps.fail _ _
  · exact Builtin.keeps_apply (fun text store => Store.frozen_print store text) _ _ _ _
  · exact Keeps.bind (Keeps.ofBreakdown _) fun shown => Keeps.fail _ _

end Evaluator

/-! ### Evaluation -/

namespace Evaluator

open CallLang.Action (Keeps)

variable {evaluate : Evaluator}

theorem local_form
    (hevaluate : ∀ expr scope, (evaluate expr scope).Keeps (Store.Local scope expr.Defines))
    (rounds : Nat) (scope : ScopeId) {operator : Expr} {f : Form} (hf : operator.form? = some f)
    (operands : List Expr) (span : Span) :
    (form rounds evaluate scope f operands span).Keeps
      (Store.Local scope (Expr.call operator operands span).Defines) := by
  -- the operands of all forms but functions may define names in the scope
  have hoperand : f ≠ .function → ∀ operand ∈ operands, (evaluate operand scope).Keeps
      (Store.Local scope (Expr.call operator operands span).Defines) := by
    intro hne operand hmem
    refine (hevaluate operand scope).mono fun _ _ h => h.mono fun name hname => ?_
    exact .operand (by rw [hf]; simpa using hne) hmem hname
  cases f.use operands with
  | conditional test yes no =>
      rw [form_conditional]
      refine Keeps.bind (hoperand (by decide) test (by simp)) fun answer => ?_
      split
      · exact hoperand (by decide) yes (by simp)
      · exact hoperand (by decide) no (by simp)
  | loop test body =>
      rw [form_loop]
      exact Keeps.repeatWhile rounds (hoperand (by decide) test (by simp))
        (hoperand (by decide) body (by simp))
  | sequence operands =>
      rw [form_sequence]
      exact Keeps.last _ (hoperand (by decide))
  | define name place expr =>
      rw [form_define]
      refine Keeps.bind (hoperand (by decide) expr (by simp)) fun value => ?_
      refine Keeps.bind ?_ fun _ => Keeps.pure value
      intro store
      exact Store.local_define store value (.here hf)
  | function parameters body =>
      rw [form_function]
      refine Keeps.bind (Keeps.ofExcept _) fun names store => ?_
      exact (Store.frozen_close store).local
  | wrong h =>
      rw [form_misused rounds evaluate scope span h]
      exact Keeps.fail _ _

/-- Evaluation in a scope changes no other scope that has existed before. -/
theorem local_eval (rounds depth : Nat) (expr : Expr) (scope : ScopeId) :
    (eval rounds depth expr scope).Keeps (Store.Local scope expr.Defines) := by
  induction depth generalizing expr scope with
  | zero => exact Keeps.stop _
  | succ depth ih =>
      cases expr with
      | literal value span => exact Keeps.pure value
      | name text span => exact Keeps.lookup scope text span
      | hole => exact Keeps.fail _ _
      | call operator arguments span =>
          simp only [eval]
          cases hf : operator.form? with
          | some f => exact local_form ih rounds scope hf arguments span
          | none =>
              have hnone : operator.form? ≠ some .function := by simp [hf]
              refine Keeps.bind ((ih operator scope).mono fun _ _ h => h.mono fun name hname =>
                .operator hnone hname) fun callee => ?_
              refine Keeps.bind (Keeps.all fun argument hmem => (ih argument scope).mono
                fun _ _ h => h.mono fun name hname => .operand hnone hmem hname) fun values => ?_
              exact (frozen_apply ih depth (some span) callee values).mono fun _ _ h => h.local

end Evaluator

/-- Evaluating an expression in a scope changes no other scope that has existed
    before.  In the scope itself it keeps the parent and all names, and it binds
    anew only names that the expression defines outside of its functions.  Applying
    a value changes no scope at all that has existed before. -/
theorem Limits.writes_local (limits : Limits) (store : Store) :
    (∀ expr scope, Store.Local scope expr.Defines store (limits.eval expr scope store).2) ∧
      ∀ place callee arguments,
        Store.Frozen store (limits.apply place callee arguments store).2 := by
  constructor
  · intro expr scope
    exact Evaluator.local_eval limits.rounds limits.depth expr scope store
  · intro place callee arguments
    exact Evaluator.frozen_apply (Evaluator.local_eval limits.rounds limits.depth) limits.depth
      place callee arguments store

end CallLang
