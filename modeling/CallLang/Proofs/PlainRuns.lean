/-
  CallLang/Proofs/PlainRuns.lean
  ==============================
  **Runs of programs that were read from texts.**

  In a process all programs are read from texts, so the bodies of all closures are
  plain, and no program comes upon a hole.  Every mistake of a program therefore
  belongs to one of the four categories that programs can be blamed for.
-/
import CallLang.Proofs.Invariants
import CallLang.Proofs.Isolation
import CallLang.Proofs.Refusals

namespace CallLang

/-! ### Plain values -/

/-- Whether a value can come up where all programs are read from texts: the bodies of the
    closures in it are plain. -/
inductive Value.Plain : Value → Prop where
  | number (n : Number) : Value.Plain (.number n)
  | string (text : String) : Value.Plain (.string text)
  | boolean (b : Bool) : Value.Plain (.boolean b)
  | array {items : List Value} (h : ∀ item ∈ items, item.Plain) : Value.Plain (.array items)
  | closure {id : Nat} {parameters : List String} {body : Expr} {scope : ScopeId}
      (h : body.Plain) : Value.Plain (.closure id parameters body scope)
  | builtin (function : Builtin) (home : ScopeId) : Value.Plain (.builtin function home)

/-- Whether all values that are bound are plain. -/
def Bindings.Plain (bindings : Bindings) : Prop :=
  ∀ name value, bindings.get? name = some value → value.Plain

/-- Whether all values in all scopes are plain. -/
def Store.Plain (store : Store) : Prop :=
  ∀ (id : ScopeId) (scope : Scope), store.scopes[id]? = some scope → scope.bindings.Plain

theorem Bindings.plain_nil : Bindings.Plain [] :=
  Bindings.all_nil

namespace Store

variable {store : Store}

theorem plain_iff_holds : store.Plain ↔ store.Holds (fun _ => True) Value.Plain := by
  constructor
  · intro h id scope _ hscope
    exact ⟨fun _ _ => trivial, h id scope hscope⟩
  · intro h id scope hscope
    exact (h id scope trivial hscope).2

theorem Plain.create (h : store.Plain) (parent : Option ScopeId) {bindings : Bindings}
    (hbindings : bindings.Plain) : (store.create parent bindings).2.Plain :=
  plain_iff_holds.2 ((plain_iff_holds.1 h).create (fun _ _ => trivial) hbindings)

theorem Plain.define (h : store.Plain) (id : ScopeId) (name : String) {value : Value}
    (hvalue : value.Plain) : (store.define id name value).Plain :=
  plain_iff_holds.2 ((plain_iff_holds.1 h).define id name hvalue)

theorem Plain.find? (h : store.Plain) {name : String} {reach : Nat} {id : ScopeId} {value : Value}
    (hfound : store.find? name reach id = some value) : value.Plain :=
  (plain_iff_holds.1 h).find? trivial hfound

end Store

/-! ### The invariant -/

/-- Whether a program that was read from a text may stop for a reason. -/
def Stop.Ordinary : Stop → Prop
  | .mistake cause _ => cause.category ≠ .general
  | .breakdown cause => cause ≠ .noPlace
  | .unfinished => True

/-- What occurs where all programs are read from texts. -/
def Invariant.plain : Invariant where
  store := Store.Plain
  scope := fun _ _ => True
  value := fun _ value => value.Plain
  expr := Expr.Plain
  stop := Stop.Ordinary

theorem Invariant.kept_plain : Invariant.plain.Kept where
  scope_grows := fun _ _ => trivial
  value_grows := fun _ h => h
  literal := by
    intro store value span h
    cases h with
    | int n _ => exact .number _
    | string text _ => exact .string text
  operator := by
    intro operator arguments span h
    cases h with
    | call _ hoperator _ => exact hoperator
  operand := by
    intro operator arguments span h
    cases h with
    | call _ _ harguments => exact harguments
  number := .number
  boolean := .boolean
  join := fun _ _ => .string _
  array := by
    intro store items
    constructor
    · intro h
      cases h with
      | array h => exact h
    · exact .array
  closure := by
    intro store id parameters body scope h
    cases h with
    | closure h => exact ⟨h, trivial⟩
  lookup := fun h _ hfound => h.find? hfound
  create := fun parameters h _ harguments =>
    ⟨h.create _ (Bindings.all_ofPairs parameters harguments), trivial⟩
  define := fun name h _ hvalue => h.define _ name hvalue
  print := fun h _ _ => h
  close := fun h _ hbody _ => ⟨h, .closure hbody⟩
  unbound := fun _ => nofun
  misused := by
    intro operator operands span f _ _ _
    cases f <;> exact nofun
  parameters := by
    intro operator parameters body span reason hcall _ h
    cases hcall with
    | call _ _ harguments =>
        rcases Evaluator.error_of_parameterNames h with ⟨hmem, rfl⟩ | ⟨place, rfl⟩
        · cases harguments .hole (by simp [hmem])
        · exact nofun
  applied := by
    intro operator arguments span cause _ _ hcategory _
    rcases hcategory with h | h
    · exact fun hgeneral => by rw [h] at hgeneral; cases hgeneral
    · exact fun hgeneral => by rw [h] at hgeneral; cases hgeneral
  hole := by
    intro h
    cases h
  tooDeep := nofun
  unfinished := trivial
  beyondDoubles := nofun
  longInteger := nofun

/-! ### Runs -/

theorem ordinary_of_parse {limit : Nat} {source : String} {reason : Stop}
    (h : Expr.parse limit source = .error reason) : reason.Ordinary := by
  cases reason with
  | mistake cause place =>
      intro hgeneral
      rw [Reader.grammar_of_parse h] at hgeneral
      cases hgeneral
  | breakdown cause =>
      rintro rfl
      have hended : Ended (Expr.parse limit source) := h ▸ ended_breakdown nofun
      obtain ⟨digits, -, -, hcause⟩ := (Reader.parse_breakdown_iff hended).1 h
      cases hcause
  | unfinished => trivial

/-- An evaluation leaves a plain store, and stops only for reasons that a program can be
    stopped for. -/
theorem plain_eval (limits : Limits) {program : Expr} (hprogram : program.Plain) (scope : ScopeId)
    {store : Store} (hstore : store.Plain) :
    (limits.eval program scope store).2.Plain ∧
      ∀ reason, (limits.eval program scope store).1 = .error reason → reason.Ordinary := by
  have hmeets := Evaluator.meets_eval Invariant.kept_plain limits.rounds limits.depth store program
    scope hprogram trivial store (.refl store) hstore
  exact ⟨hmeets.1, hmeets.2.2.2⟩

theorem plain_run (limits : Limits) (source : String) (scope : ScopeId) {store : Store}
    (hstore : store.Plain) :
    (limits.run source scope store).2.Plain ∧
      ∀ reason, (limits.run source scope store).1 = .error reason → reason.Ordinary := by
  cases hparse : Expr.parse limits.depth source with
  | error other =>
      simp only [Limits.run, Action.bind, Action.ofExcept, hparse]
      refine ⟨hstore, fun reason hreason => ?_⟩
      exact Except.error.inj hreason ▸ ordinary_of_parse hparse
  | ok program =>
      have hplain := plain_eval limits (Expr.plain_of_parse hparse) store.scopes.size
        (hstore.create (some scope) Bindings.plain_nil)
      simp only [Limits.run, Action.bind, Action.ofExcept, Action.create, hparse]
      exact hplain

namespace Process

theorem plain_perform (limits : Limits) (operation : Operation) {process : Process}
    (hstore : process.store.Plain) : (process.perform limits operation).2.store.Plain := by
  cases operation with
  | run source =>
      have hquiet : process.store.quiet.Plain := hstore
      exact (plain_run limits source process.globals hquiet).1
  | start session reporter path console =>
      simp only [perform]
      rcases create_cases reporter path console with hcreate | ⟨fatal, hcreate⟩
      · rw [hcreate]
        exact hstore
      · rw [hcreate]
        exact hstore.create _ Bindings.plain_nil
  | enter session source =>
      simp only [perform]
      cases process.sessions session with
      | none => exact hstore
      | some workspace =>
          simp only [keep]
          generalize hrunning : { workspace with store := process.store, output := #[] } = running
          have hbefore : running.store.Plain := hrunning ▸ hstore
          cases hparse : Expr.parse limits.depth source with
          | error reason =>
              rw [Workspace.run_of_error hparse]
              exact hbefore
          | ok program =>
              have hquiet : running.store.quiet.Plain := hbefore
              have hafter := (plain_eval limits (Expr.plain_of_parse hparse) running.scope hquiet).1
              rw [Workspace.run_of_ok hparse]
              generalize limits.eval program running.scope running.store.quiet = out at hafter ⊢
              obtain ⟨result, store⟩ := out
              cases result <;> exact hafter

/-- All values in the store of a process are plain at all times. -/
theorem plain_after (limits : Limits) (operations : List Operation) :
    (fresh.after limits operations).store.Plain := by
  induction operations using List.reverseRecOn with
  | nil =>
      have hempty : Store.empty.Plain := by
        intro id scope h
        simp [Store.empty] at h
      exact hempty.create none (Bindings.all_globals .boolean _ fun function => .builtin function _)
  | append_singleton operations operation ih =>
      rw [after_append]
      exact plain_perform limits operation ih

end Process

end CallLang
