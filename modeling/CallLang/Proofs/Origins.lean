/-
  CallLang/Proofs/Origins.lean
  ============================
  **Where an execution stays.**

  Evaluation makes closures of nodes that it comes upon, and scopes inside of
  scopes that it is in.  So an execution never leaves the trees that it starts with
  and the closures that it can find: everything that is evaluated is a node of one
  of these trees, however far from its place the closure is applied.
-/
import CallLang.Proofs.Executions
import CallLang.Proofs.Invariants
import CallLang.Proofs.Nodes
import CallLang.Proofs.Scopes

namespace CallLang

/-! ### Moments and invariants -/

/-- Whether an invariant lets a moment occur. -/
structure Invariant.Admits (I : Invariant) (moment : Moment) : Prop where
  expr : I.expr moment.expr
  scope : I.scope moment.store moment.scope
  store : I.store moment.store

namespace Moment

variable {I : Invariant} {moment next : Moment} {store after : Store} {scope : ScopeId}

theorem Yields.admitted {value : Value} (h : moment.Yields value after) (hI : I.Kept)
    (hmoment : I.Admits moment) :
    I.store after ∧ moment.store.Grows after ∧ I.value after value := by
  obtain ⟨limits, hrun⟩ := h
  obtain ⟨hstore, hgrows, hvalue, -⟩ := Evaluator.meets_eval hI limits.rounds limits.depth
    moment.store moment.expr moment.scope hmoment.expr hmoment.scope moment.store (.refl _)
    hmoment.store
  unfold run Limits.eval at hrun
  rw [hrun] at hstore hgrows hvalue
  exact ⟨hstore, hgrows, hvalue value rfl⟩

theorem YieldAll.admitted {exprs : List Expr} {values : List Value}
    (h : YieldAll scope store exprs values after) (hI : I.Kept)
    (hexprs : ∀ expr ∈ exprs, I.expr expr) (hscope : I.scope store scope) (hstore : I.store store) :
    I.store after ∧ store.Grows after ∧ ∀ value ∈ values, I.value after value := by
  induction h with
  | nil => exact ⟨hstore, .refl _, fun _ hmem => absurd hmem List.not_mem_nil⟩
  | cons hvalue hrest ih =>
      obtain ⟨hbetween, hgrows, hfirst⟩ :=
        hvalue.admitted hI ⟨hexprs _ List.mem_cons_self, hscope, hstore⟩
      obtain ⟨hafter, hgrows', hothers⟩ := ih
        (fun expr hmem => hexprs expr (List.mem_cons_of_mem _ hmem))
        (hI.scope_grows hgrows hscope) hbetween
      refine ⟨hafter, hgrows.trans hgrows', ?_⟩
      intro value hmem
      rcases List.mem_cons.1 hmem with rfl | hmem
      · exact hI.value_grows hgrows' hfirst
      · exact hothers value hmem

theorem Applies.admitted {callee : Value} {values : List Value}
    (h : moment.Applies callee values after) (hI : I.Kept) (hmoment : I.Admits moment) :
    I.store after ∧ I.value after callee ∧ ∀ value ∈ values, I.value after value := by
  cases h with
  | call hform hoperator harguments =>
      obtain ⟨hexpr, hscope, hstore⟩ := hmoment
      obtain ⟨hbetween, hgrows, hcallee⟩ :=
        hoperator.admitted hI ⟨hI.operator hexpr, hscope, hstore⟩
      obtain ⟨hafter, hgrows', hvalues⟩ :=
        harguments.admitted hI (hI.operand hexpr) (hI.scope_grows hgrows hscope) hbetween
      exact ⟨hafter, hI.value_grows hgrows' hcallee, hvalues⟩

/-- What a moment that may occur starts may occur. -/
theorem Enters.admitted (h : moment.Enters next) (hI : I.Kept) (hmoment : I.Admits moment) :
    I.Admits next := by
  have hexpr := hmoment.expr
  cases h with
  | operator hform => exact ⟨hI.operator hexpr, hmoment.scope, hmoment.store⟩
  | argument hform hoperator hbefore =>
      obtain ⟨hbetween, hgrows, -⟩ :=
        hoperator.admitted hI ⟨hI.operator hexpr, hmoment.scope, hmoment.store⟩
      have hscope := hI.scope_grows hgrows hmoment.scope
      have hoperands := hI.operand hexpr
      obtain ⟨hafter, hgrows', -⟩ := hbefore.admitted hI
        (fun expr hmem => hoperands expr (List.mem_append_left _ hmem)) hscope hbetween
      exact ⟨hoperands _ (by simp), hI.scope_grows hgrows' hscope, hafter⟩
  | @body _ id parameters body home values after happlies hlength =>
      obtain ⟨hafter, hcallee, hvalues⟩ := happlies.admitted hI hmoment
      obtain ⟨hbody, hhome⟩ := hI.closure hcallee
      obtain ⟨hstore, hscope⟩ := hI.create parameters hafter hhome hvalues
      exact ⟨hbody, hscope, hstore⟩
  | test hform => exact ⟨hI.operand hexpr _ (by simp), hmoment.scope, hmoment.store⟩
  | @branch operator test yes no span scope store after answer hform htest =>
      have hoperands := hI.operand hexpr
      obtain ⟨hafter, hgrows, -⟩ :=
        htest.admitted hI ⟨hoperands test (by simp), hmoment.scope, hmoment.store⟩
      refine ⟨?_, hI.scope_grows hgrows hmoment.scope, hafter⟩
      change I.expr (if answer.isTrue then yes else no)
      split
      · exact hoperands yes (by simp)
      · exact hoperands no (by simp)
  | loopTest hform => exact ⟨hI.operand hexpr _ (by simp), hmoment.scope, hmoment.store⟩
  | @loopBody operator test body span scope store after answer hform htest htrue =>
      have hoperands := hI.operand hexpr
      obtain ⟨hafter, hgrows, -⟩ :=
        htest.admitted hI ⟨hoperands test (by simp), hmoment.scope, hmoment.store⟩
      exact ⟨hoperands body (by simp), hI.scope_grows hgrows hmoment.scope, hafter⟩
  | @again operator test body span scope store between after answer value hform htest htrue hbody =>
      have hoperands := hI.operand hexpr
      obtain ⟨hbetween, hgrows, -⟩ :=
        htest.admitted hI ⟨hoperands test (by simp), hmoment.scope, hmoment.store⟩
      have hscope := hI.scope_grows hgrows hmoment.scope
      obtain ⟨hafter, hgrows', -⟩ :=
        hbody.admitted hI ⟨hoperands body (by simp), hscope, hbetween⟩
      exact ⟨hexpr, hI.scope_grows hgrows' hscope, hafter⟩
  | element hform hbefore =>
      have hoperands := hI.operand hexpr
      obtain ⟨hafter, hgrows, -⟩ := hbefore.admitted hI
        (fun expr hmem => hoperands expr (List.mem_append_left _ hmem)) hmoment.scope hmoment.store
      exact ⟨hoperands _ (by simp), hI.scope_grows hgrows hmoment.scope, hafter⟩
  | definition hform => exact ⟨hI.operand hexpr _ (by simp), hmoment.scope, hmoment.store⟩

/-- All moments of an execution may occur if the first may. -/
theorem Reaches.admitted {last : Moment} (h : moment.Reaches last) (hI : I.Kept)
    (hmoment : I.Admits moment) : I.Admits last := by
  induction h with
  | refl => exact hmoment
  | tail _ henters ih => exact henters.admitted hI ih

end Moment

/-! ### Origins -/

/-- What an execution starts with: the nodes of some trees that were read from texts, a global
    scope, and all scopes from a number on. -/
structure Origin where
  nodes : Expr → Prop
  globals : ScopeId
  base : Nat
  plain : ∀ {node}, nodes node → node.Plain
  children : ∀ {node child}, nodes node → child ∈ node.children → nodes child

/-- Whether the bodies of all closures in a value are of one kind, and their scopes of another. -/
inductive Value.Stems (bodies : Expr → Prop) (homes : ScopeId → Prop) : Value → Prop where
  | number (n : Number) : Value.Stems bodies homes (.number n)
  | string (text : String) : Value.Stems bodies homes (.string text)
  | boolean (b : Bool) : Value.Stems bodies homes (.boolean b)
  | array {items : List Value} (h : ∀ item ∈ items, item.Stems bodies homes) :
      Value.Stems bodies homes (.array items)
  | closure {id : Nat} {parameters : List String} {body : Expr} {scope : ScopeId}
      (hbody : bodies body) (hscope : homes scope) :
      Value.Stems bodies homes (.closure id parameters body scope)
  | builtin (function : Builtin) (home : ScopeId) : Value.Stems bodies homes (.builtin function home)

namespace Origin

/-- The scopes of an origin. -/
def Home (origin : Origin) (id : ScopeId) : Prop :=
  id = origin.globals ∨ origin.base ≤ id

/-- Whether everything that can be found from the scopes of an origin belongs to it. -/
def Covers (origin : Origin) (store : Store) : Prop :=
  origin.base ≤ store.scopes.size ∧
    store.Holds origin.Home (Value.Stems origin.nodes origin.Home)

/-- What occurs in an execution that starts with an origin. -/
def invariant (origin : Origin) : Invariant where
  store := origin.Covers
  scope := fun _ id => origin.Home id
  value := fun _ value => value.Stems origin.nodes origin.Home
  expr := origin.nodes
  stop := fun _ => True

variable (origin : Origin)

theorem Covers.create {origin : Origin} {store : Store} (h : origin.Covers store) {parent : ScopeId}
    (hparent : origin.Home parent) {bindings : Bindings}
    (hbindings : bindings.All (Value.Stems origin.nodes origin.Home)) :
    origin.Covers (store.create (some parent) bindings).2 ∧ origin.Home store.scopes.size := by
  obtain ⟨hsize, hholds⟩ := h
  refine ⟨⟨?_, hholds.create ?_ hbindings⟩, .inr hsize⟩
  · rw [Store.size_create]
    exact Nat.le_succ_of_le hsize
  · rintro id ⟨rfl⟩
    exact hparent

theorem kept_invariant : origin.invariant.Kept where
  scope_grows := fun _ h => h
  value_grows := fun _ h => h
  literal := by
    intro store value span h
    cases origin.plain h with
    | int n _ => exact .number _
    | string text _ => exact .string text
  operator := fun h => origin.children h List.mem_cons_self
  operand := fun h argument hmem => origin.children h (List.mem_cons_of_mem _ hmem)
  number := .number
  boolean := .boolean
  join := fun _ _ => .string _
  array := by
    intro store items
    constructor
    · intro h
      cases h with
      | array h => exact h
    · exact .array
  closure := by
    intro store id parameters body scope h
    cases h with
    | closure hbody hscope => exact ⟨hbody, hscope⟩
  lookup := fun h hid hfound => h.2.find? hid hfound
  create := fun parameters h hparent harguments =>
    h.create hparent (Bindings.all_ofPairs parameters harguments)
  define := by
    intro store id value name h _ hvalue
    refine ⟨?_, h.2.define id name hvalue⟩
    rw [Store.size_define]
    exact h.1
  print := fun h _ _ => h
  close := fun h hscope hbody _ => ⟨h, .closure hbody hscope⟩
  unbound := fun _ => trivial
  misused := fun _ _ _ => trivial
  parameters := fun _ _ _ => trivial
  applied := fun _ _ _ _ => trivial
  hole := fun _ => trivial
  tooDeep := trivial
  unfinished := trivial
  beyondDoubles := trivial
  longInteger := trivial

/-- The origin of the execution of some programs. -/
def ofPrograms (programs : Expr → Prop) (hplain : ∀ program, programs program → program.Plain)
    (globals : ScopeId) (base : Nat) : Origin where
  nodes := fun node => ∃ program, programs program ∧ program.HasNode node
  globals := globals
  base := base
  plain := fun ⟨program, hprogram, hnode⟩ => (hplain program hprogram).node hnode
  children := fun ⟨program, hprogram, hnode⟩ hchild => ⟨program, hprogram, hnode.child hchild⟩

/-- Everything that is evaluated belongs to the origin. -/
theorem nodes_of_reaches {moment last : Moment} (h : moment.Reaches last)
    (hexpr : origin.nodes moment.expr) (hscope : origin.Home moment.scope)
    (hstore : origin.Covers moment.store) : origin.nodes last.expr :=
  (h.admitted origin.kept_invariant ⟨hexpr, hscope, hstore⟩).expr

end Origin

end CallLang
