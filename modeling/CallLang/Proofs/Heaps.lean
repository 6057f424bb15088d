/-
  CallLang/Proofs/Heaps.lean
  ==========================
  **Scopes lead upwards.**

  Scopes and closures refer to each other in circles: a scope binds a closure that was made
  inside of it.  The links from scopes to the scopes around them do not take part in this.
  A scope is created inside of one that is there, and it never moves.

  Programs share a `Heap` and hand on their values.  Whatever they do with it, in the end every
  scope stands on one chain of ever older scopes up to a global one (`Heap.Ordered`), so a
  search comes to an end there and finds what every global scope binds.
-/
import CallLang.Proofs.Histories
import CallLang.Proofs.Invariants
import CallLang.Proofs.References
import CallLang.Proofs.Registrations
import Mathlib.Logic.Relation

namespace CallLang

/-! ### Chains of scopes -/

namespace Store

variable {store : Store} {id : ScopeId} {chain chain' : List ScopeId}

/-- There is only one way up. -/
theorem Ancestry.unique (h : store.Ancestry id chain) (h' : store.Ancestry id chain') :
    chain' = chain := by
  induction h generalizing chain' with
  | top hscope hparent =>
      cases h' with
      | top => rfl
      | inside hscope' hparent' _ =>
          obtain rfl := Option.some.inj (hscope.symm.trans hscope')
          cases hparent.symm.trans hparent'
  | inside hscope hparent _ ih =>
      cases h' with
      | top hscope' hparent' =>
          obtain rfl := Option.some.inj (hscope.symm.trans hscope')
          cases hparent.symm.trans hparent'
      | inside hscope' hparent' hrest' =>
          obtain rfl := Option.some.inj (hscope.symm.trans hscope')
          obtain rfl := Option.some.inj (hparent.symm.trans hparent')
          rw [ih hrest']

theorem Ancestry.eq_cons (h : store.Ancestry id chain) : chain = id :: chain.tail := by
  cases h <;> rfl

/-- The scopes around are those on the chain behind the first one. -/
theorem Ancestry.around_eq (h : store.Ancestry id chain) {reach : Nat}
    (hreach : chain.length ≤ reach) : store.around reach id = chain.tail := by
  induction h generalizing reach with
  | @top id scope hscope hparent =>
      obtain ⟨reach, rfl⟩ := Nat.exists_eq_add_one.2 hreach
      obtain ⟨outer, bindings⟩ := scope
      obtain rfl := hparent
      simp only [around, hscope, List.tail_cons]
  | @inside id parent scope rest hscope hparent hrest ih =>
      obtain ⟨reach, rfl⟩ := Nat.exists_eq_add_one.2 (Nat.lt_of_lt_of_le (Nat.succ_pos _) hreach)
      obtain ⟨outer, bindings⟩ := scope
      obtain rfl := hparent
      simp only [around, hscope, List.tail_cons]
      rw [ih (Nat.le_of_succ_le_succ hreach), ← hrest.eq_cons]

/-- A chain ends with a scope that is inside of none. -/
theorem Ancestry.exists_last (h : store.Ancestry id chain) :
    ∃ last scope, chain.getLast? = some last ∧ store.scopes[last]? = some scope ∧
      scope.parent = none := by
  induction h with
  | top hscope hparent => exact ⟨_, _, rfl, hscope, hparent⟩
  | inside _ _ hrest ih =>
      obtain ⟨last, scope, hlast, hscope⟩ := ih
      refine ⟨last, scope, ?_, hscope⟩
      rw [List.getLast?_cons, hlast]
      rfl

namespace Sound

/-- In a sound store there is a way up from every scope, and it leads to older scopes only. -/
theorem exists_ancestry (h : store.Sound) (hid : id < store.scopes.size) :
    ∃ chain, store.Ancestry id chain ∧ (∀ other ∈ chain, other ≤ id) ∧ chain.Pairwise (· > ·) ∧
      chain.length ≤ id + 1 := by
  -- the parent is older, but not the next older scope
  induction id using Nat.strong_induction_on with
  | h id ih =>
      have hscope := Array.getElem?_eq_getElem hid
      cases hparent : store.scopes[id].parent with
      | none => exact ⟨[id], .top hscope hparent, by simp, by simp, by simp⟩
      | some parent =>
          have hlt := h.parent_lt hscope hparent
          obtain ⟨rest, hrest, hbelow, hpairwise, hlength⟩ :=
            ih parent hlt (Nat.lt_trans hlt hid)
          have holder : ∀ other ∈ rest, other < id :=
            fun other hmem => Nat.lt_of_le_of_lt (hbelow other hmem) hlt
          refine ⟨id :: rest, .inside hscope hparent hrest, ?_, ?_, ?_⟩
          · exact List.forall_mem_cons.2 ⟨Nat.le_refl _, fun other hmem =>
              Nat.le_of_lt (holder other hmem)⟩
          · exact List.pairwise_cons.2 ⟨holder, hpairwise⟩
          · rw [List.length_cons]
            exact Nat.succ_le_succ (Nat.le_trans hlength hlt)

end Sound

/-! ### Scopes inside of none -/

/-- Whether the scopes that are inside of none are all global scopes, and bind what a global scope
    starts with. -/
def Rooted (globals : List ScopeId) (store : Store) : Prop :=
  ∀ id scope, store.scopes[id]? = some scope → scope.parent = none →
    id ∈ globals ∧ ∀ name ∈ (globalBindings 0).names, ∃ value, scope.bindings.get? name = some value

section

variable {globals : List ScopeId}

theorem exists_global_binding {name : String} (hname : name ∈ (globalBindings 0).names)
    (home : ScopeId) : ∃ value, (globalBindings home).get? name = some value := by
  have hnames : (globalBindings home).names = (globalBindings 0).names := by
    simp [globalBindings, Table.names]
  exact Table.mem_names_iff.1 (hnames ▸ hname)

example : (globalBindings 0).names.length = 13 := rfl

theorem Rooted.createGlobal (h : store.Rooted globals) :
    store.createGlobal.2.Rooted (store.createGlobal.1 :: globals) := by
  intro id scope hscope hparent
  rw [Store.createGlobal, scopes_create] at hscope
  split at hscope
  · next heq =>
      obtain rfl := Option.some.inj hscope
      exact ⟨heq ▸ List.mem_cons_self, fun name hname => exists_global_binding hname _⟩
  · obtain ⟨hmem, hnames⟩ := h id scope hscope hparent
    exact ⟨List.mem_cons_of_mem _ hmem, hnames⟩

theorem Rooted.create (h : store.Rooted globals) (parent : ScopeId) (bindings : Bindings) :
    (store.create (some parent) bindings).2.Rooted globals := by
  intro id scope hscope hparent
  rw [scopes_create] at hscope
  split at hscope
  · obtain rfl := Option.some.inj hscope
    cases hparent
  · exact h id scope hscope hparent

theorem Rooted.define (h : store.Rooted globals) (id : ScopeId) (name : String) (value : Value) :
    (store.define id name value).Rooted globals := by
  intro other scope hscope hparent
  by_cases hother : other = id
  · subst hother
    rw [scopes_define_self] at hscope
    obtain ⟨old, hold, rfl⟩ := Option.map_eq_some_iff.1 hscope
    obtain ⟨hmem, hnames⟩ := h other old hold hparent
    refine ⟨hmem, fun prelude hprelude => ?_⟩
    rw [Table.get?_set]
    split
    · exact ⟨value, rfl⟩
    · exact hnames prelude hprelude
  · rw [scopes_define_of_ne _ _ _ _ hother] at hscope
    exact h other scope hscope hparent

/-- From every scope a name is found that all global scopes start with. -/
theorem Rooted.exists_binding (h : store.Rooted globals) (hchain : store.Ancestry id chain)
    {name : String} (hname : name ∈ (globalBindings 0).names) :
    ∃ value, chain.findSome? (store.binding? · name) = some value := by
  obtain ⟨last, scope, hlast, hscope, hparent⟩ := hchain.exists_last
  obtain ⟨value, hvalue⟩ := (h last scope hscope hparent).2 name hname
  rw [← binding?_eq hscope] at hvalue
  refine Option.isSome_iff_exists.1 (List.findSome?_isSome_iff.2 ⟨last, ?_, ?_⟩)
  · exact List.mem_of_getLast? hlast
  · exact Option.isSome_iff_exists.2 ⟨value, hvalue⟩

end

end Store

/-- What occurs where the scopes that are inside of none are all global scopes. -/
def Invariant.rooted (globals : List ScopeId) : Invariant where
  store := Store.Rooted globals
  scope := fun _ _ => True
  value := fun _ _ => True
  expr := fun _ => True
  stop := fun _ => True

/-- Evaluation creates no scope that is inside of none, and no binding is ever taken away. -/
theorem Invariant.kept_rooted (globals : List ScopeId) : (Invariant.rooted globals).Kept where
  scope_grows := fun _ _ => trivial
  value_grows := fun _ _ => trivial
  literal := fun _ => trivial
  operator := fun _ => trivial
  operand := fun _ _ _ => trivial
  number := fun _ => trivial
  boolean := fun _ => trivial
  join := fun _ _ => trivial
  array := iff_of_true trivial fun _ _ => trivial
  closure := fun _ => ⟨trivial, trivial⟩
  lookup := fun _ _ _ => trivial
  create := fun _ h _ _ => ⟨h.create _ _, trivial⟩
  define := fun name h _ _ => h.define _ name _
  print := fun h _ _ => h
  close := fun h _ _ _ => ⟨h, trivial⟩
  unbound := fun _ => trivial
  misused := fun _ _ _ => trivial
  parameters := fun _ _ _ => trivial
  applied := fun _ _ _ _ => trivial
  hole := fun _ => trivial
  tooDeep := trivial
  unfinished := trivial
  beyondDoubles := trivial
  longInteger := trivial

/-! ### What is done with a heap -/

/-- The scopes that programs share, which of them are global, and the values that programs and
    calls have returned. -/
structure Heap where
  store : Store
  globals : List ScopeId
  returned : List Value

namespace Heap

def empty : Heap :=
  { store := .empty, globals := [], returned := [] }

/-- Whether a value can be got hold of: it is bound anywhere, was returned, contains no reference
    at all, or stands in an array that can be got hold of, at whatever depth. -/
inductive Held (heap : Heap) : Value → Prop where
  | bound {id : ScopeId} {scope : Scope} {name : String} {value : Value}
      (hscope : heap.store.scopes[id]? = some scope)
      (hbound : scope.bindings.get? name = some value) : Held heap value
  | returned {value : Value} (h : value ∈ heap.returned) : Held heap value
  | number (n : Number) : Held heap (.number n)
  | string (text : String) : Held heap (.string text)
  | boolean (b : Bool) : Held heap (.boolean b)
  | array {items : List Value} (h : ∀ item ∈ items, Held heap item) : Held heap (.array items)
  | item {items : List Value} {item : Value} (h : Held heap (.array items)) (hmem : item ∈ items) :
      Held heap item

/-- What can be done with a heap, each time within limits of its own: a program is run in a new
    scope, or a tree that has been read is evaluated in one that is there, or a value is applied
    to others. -/
inductive Allows (heap : Heap) : Action Value → Prop where
  | run (limits : Limits) (source : String) {scope : ScopeId}
      (hscope : scope < heap.store.scopes.size) : Allows heap (limits.run source scope)
  | eval (limits : Limits) {program : Expr} (hprogram : program.Plain) {scope : ScopeId}
      (hscope : scope < heap.store.scopes.size) : Allows heap (limits.eval program scope)
  | apply (limits : Limits) (place : Option Span) {callee : Value} {arguments : List Value}
      (hcallee : heap.Held callee) (harguments : ∀ argument ∈ arguments, heap.Held argument) :
      Allows heap (limits.apply place callee arguments)

/-- Whether a heap can become another one at once.  What an action has done remains, also if it
    comes to an error. -/
inductive Step : Heap → Heap → Prop where
  | globals (heap : Heap) :
      Step heap { heap with
        store := heap.store.createGlobal.2
        globals := heap.store.createGlobal.1 :: heap.globals }
  | child (heap : Heap) {scope : ScopeId} (hscope : scope < heap.store.scopes.size) :
      Step heap { heap with store := (heap.store.create (some scope) []).2 }
  | act {heap : Heap} {action : Action Value} (h : heap.Allows action) :
      Step heap { heap with
        store := (action heap.store).2
        returned := (action heap.store).1.toOption.toList ++ heap.returned }

/-- Whether a heap can come of an empty one. -/
def Reachable (heap : Heap) : Prop :=
  Relation.ReflTransGen Step .empty heap

/-! ### What every step preserves -/

/-- Whether everything refers to what is there, and scopes that are inside of none are global. -/
structure Formed (heap : Heap) : Prop where
  sound : heap.store.Sound
  rooted : heap.store.Rooted heap.globals
  returned : ∀ value ∈ heap.returned, value.Within heap.store

variable {heap next : Heap}

theorem formed_empty : empty.Formed where
  sound := Store.sound_empty
  rooted := fun _ _ hscope => by cases hscope
  returned := fun _ hmem => by cases hmem

theorem Formed.within (h : heap.Formed) {value : Value} (hheld : heap.Held value) :
    value.Within heap.store := by
  induction hheld with
  | bound hscope hbound => exact h.sound.within hscope hbound
  | returned hmem => exact h.returned _ hmem
  | number n => exact .number n
  | string text => exact .string text
  | boolean b => exact .boolean b
  | array _ ih => exact Value.within_array.2 ih
  | item _ hmem ih => exact Value.within_array.1 ih _ hmem

/-- An action that is allowed refers to nothing but the heap. -/
theorem Allows.same {action : Action Value} (hallows : heap.Allows action) (h : heap.Formed) :
    Action.Same .strict (Store.Same .strict) heap.store.identity (Value.Same .strict) action
      action := by
  have heval : ∀ limits : Limits, Evaluator.Same .strict (Store.Same .strict) limits.eval
      limits.eval := fun limits =>
    Evaluator.same_eval (Store.likeness .strict) limits.rounds limits.depth
  cases hallows with
  | run limits source hscope => exact Process.same_run limits source ⟨hscope, rfl⟩
  | eval limits hprogram hscope =>
      exact heval limits _ _ _ _ _ (hprogram.within heap.store) ⟨hscope, rfl⟩
  | apply limits place hcallee harguments =>
      exact Evaluator.same_apply (Store.likeness .strict) (heval limits) limits.depth
        (Comparison.rel_place (fun _ => rfl) place) (h.within hcallee)
        (.of_forall fun argument hmem => h.within (harguments argument hmem))

theorem Allows.meets {action : Action Value} (hallows : heap.Allows action)
    (globals : List ScopeId) :
    action.Meets (Invariant.rooted globals) heap.store fun _ _ => True := by
  have hkept := Invariant.kept_rooted globals
  have heval : ∀ limits : Limits, Evaluator.Meets (Invariant.rooted globals) limits.eval :=
    fun limits => Evaluator.meets_eval hkept limits.rounds limits.depth
  cases hallows with
  | @run limits source scope hscope =>
      have hparse : (Action.ofExcept (Expr.parse limits.depth source)).Meets
          (Invariant.rooted globals) heap.store fun _ _ => True :=
        .ofExcept (fun _ _ _ _ => trivial) fun _ _ => trivial
      refine hparse.bind fun after program _ _ => ?_
      have hcreate : (Action.create (some scope) []).Meets (Invariant.rooted globals) after
          fun _ _ => True := fun before _ hstore =>
        ⟨hstore.create scope [], (before.frozen_create _ _).toGrows, fun _ _ => trivial,
          fun _ hreason => by cases hreason⟩
      exact hcreate.bind fun _ _ _ _ => heval limits _ _ _ trivial trivial
  | eval limits hprogram hscope => exact heval limits _ _ _ trivial trivial
  | apply limits place hcallee harguments =>
      exact Evaluator.meets_apply hkept (heval limits) limits.depth (fun _ _ _ => trivial) trivial
        fun _ _ => trivial

theorem Formed.step (h : heap.Formed) (hstep : heap.Step next) : next.Formed := by
  cases hstep with
  | globals =>
      have hfrozen := heap.store.frozen_create none (Store.globalBindings heap.store.scopes.size)
      exact
        { sound := h.sound.createGlobal
          rooted := h.rooted.createGlobal
          returned := fun value hmem => (h.returned value hmem).mono hfrozen.toGrows.le_identity }
  | @child scope hscope =>
      have hfrozen := heap.store.frozen_create (some scope) []
      exact
        { sound := h.sound.create hscope
          rooted := h.rooted.create scope []
          returned := fun value hmem => (h.returned value hmem).mono hfrozen.toGrows.le_identity }
  | @act action hallows =>
      have hsame := hallows.same h
      obtain ⟨hsound, hvalue⟩ := hsame.sound h.sound
      obtain ⟨hrooted, -⟩ := hallows.meets heap.globals heap.store (.refl _) h.rooted
      refine { sound := hsound, rooted := hrooted, returned := fun value hmem => ?_ }
      rcases List.mem_append.1 hmem with hnew | hold
      · cases hresult : (action heap.store).1 with
        | ok result =>
            rw [hresult] at hnew
            obtain rfl : value = result := List.mem_singleton.1 hnew
            exact hvalue value hresult
        | error reason =>
            rw [hresult] at hnew
            cases hnew
      · exact (h.returned value hold).mono (hsame.le_identity h.sound)

theorem Reachable.formed (h : heap.Reachable) : heap.Formed := by
  induction h with
  | refl => exact formed_empty
  | tail _ hstep ih => exact ih.step hstep

/-! ### What holds of every heap -/

/-- Whether all links between scopes lead to older ones.  Then there is just one way up from a
    scope, on which none is met twice, and it ends in a global scope.  To look for a name or to
    describe a scope takes no more steps than this way has. -/
structure Ordered (heap : Heap) : Prop where
  parent_lt : ∀ (id : ScopeId) (scope : Scope) (parent : ScopeId),
    heap.store.scopes[id]? = some scope → scope.parent = some parent → parent < id
  ancestry : ∀ id < heap.store.scopes.size, ∃ chain, heap.store.Ancestry id chain ∧
    (∀ other, heap.store.Ancestry id other → other = chain) ∧ chain.Pairwise (· > ·) ∧
    chain.length ≤ heap.store.scopes.size ∧ (∃ last ∈ heap.globals, chain.getLast? = some last) ∧
    ∀ reach, chain.length ≤ reach →
      (∀ name, heap.store.find? name reach id = chain.findSome? (heap.store.binding? · name)) ∧
      heap.store.around reach id = chain.tail
  /-- Whatever closure can be got hold of, the scope that it was made in is there. -/
  captured : ∀ id parameters body scope, heap.Held (.closure id parameters body scope) →
    scope < heap.store.scopes.size
  /-- The names of the two booleans and of all built-in functions are bound everywhere. -/
  prelude : ∀ id < heap.store.scopes.size, ∀ name ∈ (Store.globalBindings 0).names,
    ∃ value, heap.store.lookup? id name = some value

theorem Formed.ordered (h : heap.Formed) : heap.Ordered where
  parent_lt := fun id scope parent hscope hparent => h.sound.parent_lt hscope hparent
  ancestry := by
    intro id hid
    obtain ⟨chain, hchain, -, hpairwise, hlength⟩ := h.sound.exists_ancestry hid
    obtain ⟨last, scope, hlast, hscope, hparent⟩ := hchain.exists_last
    exact ⟨chain, hchain, fun other hother => hchain.unique hother, hpairwise,
      Nat.le_trans hlength hid, ⟨last, (h.rooted last scope hscope hparent).1, hlast⟩,
      fun reach hreach => ⟨fun name => hchain.find?_eq hreach name, hchain.around_eq hreach⟩⟩
  captured := fun id parameters body scope hheld => (Value.within_closure.1 (h.within hheld)).2.2
  prelude := by
    intro id hid name hname
    obtain ⟨chain, hchain, -, -, hlength⟩ := h.sound.exists_ancestry hid
    rw [Store.lookup?, hchain.find?_eq (Nat.le_trans hlength hid)]
    exact h.rooted.exists_binding hchain hname

/-- Whatever is done with scopes, closures and programs, the links between scopes lead to older
    ones, up to a global scope. -/
theorem links_ordered (h : heap.Reachable) : heap.Ordered :=
  h.formed.ordered

/-- A program has returned a closure, and a call of it has come to an error.  The scope of the
    program and that of the call have remained. -/
theorem links_ordered_after_mistake :
    let globals := Store.empty.createGlobal.2
    let out := Limits.run ⟨20, 0⟩ "define(f, fun(x, y))" 0 globals
    let f := Value.closure 0 ["x"] (.name "y" ⟨17, 18⟩) 1
    let out' := Limits.apply ⟨20, 0⟩ none f [.int 1] out.2
    out.1 = .ok f ∧ out'.1 = .error (.mistake (.unbound "y") (some ⟨17, 18⟩)) ∧
      out'.2.scopes.size = 3 ∧ Ordered { store := out'.2, globals := [0], returned := [f] } := by
  intro globals out f out'
  have hout : out.1 = .ok f := by
    simp only [out, globals, f]
    cbv
  have hout' : out'.1 = .error (.mistake (.unbound "y") (some ⟨17, 18⟩)) := by
    simp only [out', out, globals, f]
    cbv
  have hsize : out'.2.scopes.size = 3 := by
    simp only [out', out, globals, f]
    cbv
  let first : Heap := { store := globals, globals := [0], returned := [] }
  let second : Heap := { store := out.2, globals := [0], returned := [f] }
  have hfirst : first.Reachable := .single (.globals empty)
  have hsecond : second.Reachable := by
    have hallows : first.Allows (Limits.run ⟨20, 0⟩ "define(f, fun(x, y))" 0) :=
      .run _ _ Nat.zero_lt_one
    have hstep : first.Step
        { store := out.2, globals := [0], returned := out.1.toOption.toList ++ [] } :=
      .act hallows
    rw [hout] at hstep
    exact .tail hfirst hstep
  have hlast : Reachable { store := out'.2, globals := [0], returned := [f] } := by
    have hallows : second.Allows (Limits.apply ⟨20, 0⟩ none f [.int 1]) :=
      .apply _ _ (.returned List.mem_cons_self) (List.forall_mem_singleton.2 (.number _))
    have hstep : second.Step
        { store := out'.2, globals := [0], returned := out'.1.toOption.toList ++ [f] } :=
      .act hallows
    rw [hout'] at hstep
    exact .tail hsecond hstep
  exact ⟨hout, hout', hsize, links_ordered hlast⟩

end Heap

end CallLang
