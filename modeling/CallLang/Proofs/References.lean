/-
  CallLang/Proofs/References.lean
  ===============================
  **References lead somewhere.**

  A store is sound if it refers only to scopes and closures that exist, and if every
  scope comes after the scope around it.  In other words, it is the same as itself, each
  of its scopes and closures standing for itself.  Evaluation respects correspondences
  and so it respects this one: what it comes to in a sound store is of the store that it
  leaves, and this store is sound again.  Hence all stores are sound that a process can
  get to.
-/
import CallLang.Proofs.Isolation

namespace CallLang

/-- The correspondence of a store with itself: every scope and every closure that exists
    stands for itself. -/
def Store.identity (store : Store) : Correspondence where
  scopes := fun id id' => id < store.scopes.size ∧ id' = id
  closures := fun id id' => id < store.closures ∧ id' = id

/-- Whether everything in a store refers to scopes and closures that exist, and scopes come
    after the scopes around them. -/
def Store.Sound (store : Store) : Prop :=
  Store.Same .strict store.identity store store

/-- Whether a value refers to nothing but scopes and closures of a store. -/
def Value.Within (store : Store) (value : Value) : Prop :=
  Value.Same .strict store.identity value value

/-- Whether an expression refers to nothing but scopes and closures of a store. -/
def Expr.Within (store : Store) (expr : Expr) : Prop :=
  Expr.Same .strict store.identity expr expr

section

variable {store after : Store}

/-! ### Values and expressions -/

theorem Value.within_closure {id : Nat} {parameters : List String} {body : Expr}
    {scope : ScopeId} :
    (Value.closure id parameters body scope).Within store ↔
      id < store.closures ∧ body.Within store ∧ scope < store.scopes.size := by
  constructor
  · intro h
    cases h with
    | closure hid hbody hscope => exact ⟨hid.1, hbody, hscope.1⟩
  · rintro ⟨hid, hbody, hscope⟩
    exact .closure ⟨hid, rfl⟩ hbody ⟨hscope, rfl⟩

theorem Expr.Plain.within {expr : Expr} (h : expr.Plain) (store : Store) : expr.Within store :=
  h.same (fun _ => rfl) store.identity

theorem Value.AllSame.of_forall {c : Comparison} {w : Correspondence} {values : List Value}
    (h : ∀ value ∈ values, Value.Same c w value value) : Value.AllSame c w values values := by
  induction values with
  | nil => exact .nil
  | cons value rest ih =>
      refine .cons (h value List.mem_cons_self) (ih fun other hmem => ?_)
      exact h other (List.mem_cons_of_mem _ hmem)

theorem Value.within_array {items : List Value} :
    (Value.array items).Within store ↔ ∀ item ∈ items, item.Within store := by
  constructor
  · intro h
    cases h with
    | array hitems =>
        intro item hmem
        obtain ⟨index, hindex⟩ := List.mem_iff_getElem?.1 hmem
        have hitem := hitems.getElem? index
        rw [hindex] at hitem
        cases hitem with
        | some hitem => exact hitem
  · exact fun h => .array (.of_forall h)

/-! ### Growing -/

/-- What stands for itself has no other partner. -/
theorem unambiguous_below (bound : Nat) : Unambiguous fun id id' => id < bound ∧ id' = id := by
  rintro a b a' b' ⟨-, rfl⟩ ⟨-, rfl⟩
  exact Iff.rfl

theorem Store.Grows.le_identity (h : store.Grows after) : store.identity.Le after.identity where
  scopes := fun _ _ hid => ⟨Nat.lt_of_lt_of_le hid.1 h.scopes, hid.2⟩
  closures := fun _ _ hid => ⟨Nat.lt_of_lt_of_le hid.1 h.closures, hid.2⟩

/-- A relation in which everything below a bound stands for itself grows into the same with the
    next bound. -/
theorem Extends.identity {r : Nat → Nat → Prop} {bound bound' : Nat}
    (h : Extends (fun id id' => id < bound ∧ id' = id) r bound bound bound' bound') :
    r = fun id id' => id < bound' ∧ id' = id := by
  obtain ⟨steps, rfl, -, hiff⟩ := h
  funext id id'
  refine propext ((hiff id id').trans ?_)
  constructor
  · rintro (⟨hid, rfl⟩ | ⟨k, hk, rfl, rfl⟩)
    · exact ⟨Nat.lt_add_right steps hid, rfl⟩
    · exact ⟨Nat.add_lt_add_left hk bound, rfl⟩
  · rintro ⟨hid, rfl⟩
    by_cases hold : id' < bound
    · exact .inl ⟨hold, rfl⟩
    · exact .inr ⟨id' - bound, by omega, by omega, by omega⟩

theorem Correspondence.Grows.identity {w : Correspondence}
    (h : store.identity.Grows w store store after after) : w = after.identity := by
  obtain ⟨scopes, closures⟩ := w
  rw [Store.identity, Correspondence.mk.injEq]
  exact ⟨h.scopes.identity, h.closures.identity⟩

/-- An action that respects correspondences leaves a sound store, and what it comes to is of
    this store. -/
theorem Action.Same.sound {α : Type} {values : Correspondence → α → α → Prop} {action : Action α}
    (h : Action.Same .strict (Store.Same .strict) store.identity values action action)
    (hstore : store.Sound) :
    (action store).2.Sound ∧
      ∀ a, (action store).1 = .ok a → values (action store).2.identity a a := by
  obtain ⟨w, hgrows, hsame, hresult⟩ := h store.identity store store (.refl _) hstore
  obtain rfl := hgrows.identity
  refine ⟨hsame, fun a ha => ?_⟩
  rw [ha] at hresult
  cases hresult with
  | ok hvalue => exact hvalue

/-- What an action refers to in a sound store, it refers to afterwards. -/
theorem Action.Same.le_identity {α : Type} {values : Correspondence → α → α → Prop}
    {action : Action α}
    (h : Action.Same .strict (Store.Same .strict) store.identity values action action)
    (hstore : store.Sound) : store.identity.Le (action store).2.identity := by
  obtain ⟨w, hgrows, -, -⟩ := h store.identity store store (.refl _) hstore
  obtain rfl := hgrows.identity
  exact hgrows.le

/-- There is nothing in an empty store that could refer to something. -/
theorem Store.sound_empty : Store.empty.Sound where
  scopes := fun _ _ hid => absurd hid.1 (Nat.not_lt_zero _)
  closures := fun _ _ hid => absurd hid.1 (Nat.not_lt_zero _)
  scopesUnambiguous := unambiguous_below 0
  closuresUnambiguous := unambiguous_below 0
  printed := ⟨#[], rfl, rfl⟩

namespace Store.Sound

theorem create (h : store.Sound) {parent : ScopeId} (hparent : parent < store.scopes.size) :
    (store.create (some parent) []).2.Sound :=
  (Action.Same.sound (.create (Store.likeness .strict) ⟨hparent, rfl⟩ .nil) h).1

theorem eval (h : store.Sound) (limits : Limits) {program : Expr} (hprogram : program.Within store)
    {scope : ScopeId} (hscope : scope < store.scopes.size) :
    (limits.eval program scope store).2.Sound ∧
      ∀ value, (limits.eval program scope store).1 = .ok value →
        value.Within (limits.eval program scope store).2 :=
  Action.Same.sound (Evaluator.same_eval (Store.likeness .strict) _ _ _ _ _ _ _ hprogram
    ⟨hscope, rfl⟩) h

theorem quiet (h : store.Sound) : store.quiet.Sound :=
  Store.Same.quiet h

/-- A scope is the same in all stores that have come from a sound one without a change to its
    scopes. -/
theorem sameAt_of_frozen (h : store.Sound) {c : Comparison}
    (hspans : Comparison.strict.spans ≤ c.spans) {after' : Store} (hfrozen : store.Frozen after)
    (hfrozen' : store.Frozen after') {id : ScopeId} (hid : id < store.scopes.size) :
    after.SameAt c store.identity after' id id := by
  obtain ⟨scope, scope', hscope, hscope', hsame, horder⟩ := h.scopes id id ⟨hid, rfl⟩
  refine ⟨scope, scope', ?_, ?_, hsame.map hspans (.refl _), horder⟩
  · rw [hfrozen.kept id hid, hscope]
  · rw [hfrozen'.kept id hid, hscope']

/-- Every scope comes after the scope around it. -/
theorem parent_lt (h : store.Sound) {id parent : ScopeId} {scope : Scope}
    (hscope : store.scopes[id]? = some scope) (hparent : scope.parent = some parent) :
    parent < id := by
  have hid : id < store.scopes.size := (Array.getElem?_eq_some_iff.1 hscope).1
  obtain ⟨found, -, hfound, -, -, horder, -⟩ := h.scopes id id ⟨hid, rfl⟩
  obtain rfl := Option.some.inj (hfound.symm.trans hscope)
  exact horder parent hparent

/-- What is bound refers to the store. -/
theorem within (h : store.Sound) {id : ScopeId} {scope : Scope}
    (hscope : store.scopes[id]? = some scope) {name : String} {value : Value}
    (hbound : scope.bindings.get? name = some value) : value.Within store := by
  have hid : id < store.scopes.size := (Array.getElem?_eq_some_iff.1 hscope).1
  obtain ⟨found, found', hfound, hfound', hsame, -⟩ := h.scopes id id ⟨hid, rfl⟩
  obtain rfl := Option.some.inj (hfound.symm.trans hscope)
  obtain rfl := Option.some.inj (hfound'.symm.trans hscope)
  have hvalue := hsame.bindings.get? name
  rw [hbound] at hvalue
  cases hvalue with
  | some hvalue => exact hvalue

/-- A new global scope is sound: its built-in functions belong to itself. -/
theorem createGlobal (h : store.Sound) : store.createGlobal.2.Sound where
  scopes := by
    rintro id id' ⟨hid, rfl⟩
    have hfrozen := store.frozen_create none (Store.globalBindings store.scopes.size)
    rcases Nat.lt_succ_iff_lt_or_eq.1 (Store.size_create .. ▸ hid) with hold | rfl
    · have hsame := h.sameAt_of_frozen le_rfl hfrozen hfrozen hold
      exact hsame.mono hfrozen.toGrows.le_identity
    · have hscope : store.createGlobal.2.scopes[store.scopes.size]? =
          some { parent := none, bindings := Store.globalBindings store.scopes.size } := by
        rw [Store.createGlobal, scopes_create, if_pos rfl]
      exact ⟨_, _, hscope, hscope, ⟨.none, Bindings.same_globals ⟨hid, rfl⟩⟩, nofun, nofun⟩
  closures := fun _ _ ⟨hid, heq⟩ => ⟨hid, heq ▸ hid⟩
  scopesUnambiguous := unambiguous_below _
  closuresUnambiguous := unambiguous_below _
  printed := h.printed

end Store.Sound

end

/-! ### Processes -/

namespace Process

theorem sound_fresh : fresh.store.Sound :=
  Store.sound_empty.createGlobal

theorem sound_perform {process : Process} (hproper : process.Proper)
    (hsound : process.store.Sound) (limits : Limits) (operation : Operation) :
    (process.perform limits operation).2.store.Sound := by
  cases operation with
  | run source =>
      have hrun := same_run limits source (w := process.store.quiet.identity)
        ⟨hproper.globals, rfl⟩
      exact (hrun.sound hsound.quiet).1.quiet
  | start session reporter path console =>
      simp only [perform]
      rcases create_cases reporter path console with hcreate | ⟨fatal, hcreate⟩
      · rw [hcreate]
        exact hsound
      · rw [hcreate]
        exact hsound.create hproper.globals
  | enter session source =>
      simp only [perform]
      cases hsession : process.sessions session with
      | none => exact hsound
      | some workspace =>
          let running : Workspace := { workspace with store := process.store, output := #[] }
          change (running.run limits source).2.store.Sound
          cases hparse : Expr.parse limits.depth source with
          | error reason =>
              rw [Workspace.run_of_error hparse]
              exact hsound
          | ok program =>
              have hscope := (hproper.sessions session workspace hsession).2
              have heval : (limits.eval program running.scope running.store.quiet).2.Sound :=
                (hsound.quiet.eval limits ((Expr.plain_of_parse hparse).within _) hscope).1
              rw [Workspace.run_of_ok hparse]
              generalize limits.eval program running.scope running.store.quiet = out at heval ⊢
              obtain ⟨reason | value, store⟩ := out
              · exact heval.quiet
              · exact heval.quiet

/-- All stores that a process can get to are sound. -/
theorem sound_after (limits : Limits) (operations : List Operation) :
    (fresh.after limits operations).store.Sound := by
  induction operations using List.reverseRecOn with
  | nil => exact sound_fresh
  | append_singleton operations operation ih =>
      rw [after_append]
      exact sound_perform (proper_after limits operations).1 ih limits operation

end Process

end CallLang
