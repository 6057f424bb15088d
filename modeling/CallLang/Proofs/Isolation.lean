/-
  CallLang/Proofs/Isolation.lean
  ==============================
  **Sessions are isolated.**

  The sessions of a process and the programs that it runs by themselves share the
  global scope and the store, but nothing that one of them does can be noticed by
  another: every operation comes to the same as in a process that has only done
  the earlier operations of its own session.

  The two processes are compared step by step.  A correspondence connects the
  scopes of one session in both stores; the scopes of all other sessions stand for
  nothing.  An operation of the session is simulated, and an operation of another
  changes only scopes that stand for nothing.
-/
import CallLang.Process
import CallLang.Proofs.Workspaces

namespace CallLang

/-! ### Observations -/

/-- Whether two operations have come to the same, up to a correspondence of the stores. -/
structure Observation.Same (w : Correspondence) (observation observation' : Observation) : Prop where
  store : Store.Same .strict w observation.store observation'.store
  result : Ending.SameResult (Option.Rel (Value.Same .strict w)) observation.result
    observation'.result
  output : observation.output = observation'.output
  session : Option.Rel (Workspace.Same .strict w) observation.session observation'.session

/-- Whether two operations have come to the same but for the numbers of scopes and
    closures: the value or the ending, what is written, and the session with the
    bindings of its scope. -/
def Observation.Alike (observation observation' : Observation) : Prop :=
  ∃ w, Observation.Same w observation observation'

/-- The operations of the session that an operation belongs to. -/
def Operation.companions (operation : Operation) (operations : List Operation) :
    List Operation :=
  operations.filter fun other => other.session?.isSome && other.session? == operation.session?

namespace Process

/-! ### Steps -/

/-- What holds of a process at all times. -/
structure Proper (process : Process) : Prop where
  printed : process.store.printed = #[]
  globals : process.globals < process.store.scopes.size
  sessions : ∀ session, ∀ workspace ∈ process.sessions session,
    process.globals < workspace.scope ∧ workspace.scope < process.store.scopes.size

/-- What an operation does to a process: nothing to the scopes of other sessions. -/
structure Step (operation : Operation) (process next : Process) : Prop where
  globals : next.globals = process.globals
  printed : next.store.printed = #[]
  size : process.store.scopes.size ≤ next.store.scopes.size
  closures : process.store.closures ≤ next.store.closures
  scopes : ∀ id, id < process.store.scopes.size →
    (∀ session ∈ operation.session?, ∀ workspace ∈ process.sessions session,
      workspace.scope ≠ id) → next.store.scopes[id]? = process.store.scopes[id]?
  others : ∀ session, operation.session? ≠ some session →
    next.sessions session = process.sessions session
  own : ∀ session, operation.session? = some session → ∀ workspace ∈ next.sessions session,
    workspace.scope < next.store.scopes.size ∧
      (process.store.scopes.size ≤ workspace.scope ∨
        ∃ old ∈ process.sessions session, old.scope = workspace.scope)

theorem Proper.next {process next : Process} {operation : Operation} (h : process.Proper)
    (hstep : Step operation process next) : next.Proper := by
  have hglobals := h.globals
  refine ⟨hstep.printed, ?_, ?_⟩
  · rw [hstep.globals]
    exact Nat.lt_of_lt_of_le hglobals hstep.size
  · intro session workspace hworkspace
    rw [hstep.globals]
    by_cases hsession : operation.session? = some session
    · obtain ⟨hlt, hnew | ⟨old, hold, heq⟩⟩ := hstep.own session hsession workspace hworkspace
      · exact ⟨Nat.lt_of_lt_of_le hglobals hnew, hlt⟩
      · exact ⟨heq ▸ (h.sessions session old hold).1, hlt⟩
    · rw [hstep.others session hsession] at hworkspace
      obtain ⟨hlow, hhigh⟩ := h.sessions session workspace hworkspace
      exact ⟨hlow, Nat.lt_of_lt_of_le hhigh hstep.size⟩

theorem keep_self (process : Process) (session : Nat) (workspace : Workspace) :
    (process.keep session workspace).sessions session = some workspace := if_pos rfl

theorem keep_other (process : Process) {session other : Nat} (workspace : Workspace)
    (h : other ≠ session) :
    (process.keep session workspace).sessions other = process.sessions other := if_neg h

theorem Step.refl (operation : Operation) {process : Process} (h : process.Proper) :
    Step operation process process where
  globals := rfl
  printed := h.printed
  size := Nat.le_refl _
  closures := Nat.le_refl _
  scopes := fun _ _ _ => rfl
  others := fun _ _ => rfl
  own := fun session _ workspace hworkspace =>
    ⟨(h.sessions session workspace hworkspace).2, .inr ⟨workspace, hworkspace, rfl⟩⟩

/-- A program that is run by itself changes no scope. -/
theorem frozen_run (limits : Limits) (source : String) (scope : ScopeId) :
    (limits.run source scope).Keeps Store.Frozen := by
  refine Action.Keeps.bind (.ofExcept _) fun program store => ?_
  have hcreate := store.frozen_create (some scope) []
  have hbody := Evaluator.local_eval limits.rounds limits.depth program store.scopes.size
    (store.create (some scope) []).2
  refine { hcreate.toGrows.trans hbody.toGrows with kept := ?_ }
  intro id hid
  rw [← hcreate.kept id hid]
  exact hbody.others id (Nat.lt_of_lt_of_le hid hcreate.scopes) (Nat.ne_of_lt hid)

/-- The workspace of a session that has just been opened. -/
def opened (reporter : Reporter) (path : String) (store : Store) (globals : ScopeId) : Workspace :=
  { path, store := (store.create (some globals) []).2, scope := store.scopes.size, reporter,
    results := [], output := #[] }

/-- Whether a session can be opened does not depend on the process.  Its reporter knows what it has
    known before. -/
theorem create_cases (reporter : Reporter) (path : String) (console : Bool) :
    (∀ store globals, Workspace.create reporter path console store globals =
      .error (.plain (Mistake.about "'" typedPath "' is a reserved filename"))) ∨
    ∃ fatal, ∀ store globals, Workspace.create reporter path console store globals =
      .ok (opened { reporter with fatal } path store globals) := by
  cases console with
  | true => exact .inr ⟨false, fun _ _ => rfl⟩
  | false =>
      simp only [Workspace.create, Bool.false_eq_true, if_false]
      split
      · exact .inl fun _ _ => rfl
      · exact .inr ⟨reporter.fatal, fun _ _ => rfl⟩

theorem opened_of_create {reporter : Reporter} {path : String} {console : Bool} {store : Store}
    {globals : ScopeId} {workspace : Workspace}
    (h : Workspace.create reporter path console store globals = .ok workspace) :
    ∃ reporter', workspace = opened reporter' path store globals := by
  rcases create_cases reporter path console with hrefused | ⟨fatal, hopened⟩
  · rw [hrefused] at h
    cases h
  · rw [hopened] at h
    exact ⟨_, (Except.ok.inj h).symm⟩

theorem step_perform {process : Process} (h : process.Proper) (limits : Limits)
    (operation : Operation) : Step operation process (process.perform limits operation).2 := by
  cases operation with
  | run source =>
      have hfrozen := frozen_run limits source process.globals process.store.quiet
      exact
        { globals := rfl
          printed := rfl
          size := hfrozen.scopes
          closures := hfrozen.closures
          scopes := fun id hid _ => hfrozen.kept id hid
          others := fun _ _ => rfl
          own := fun _ hsession => absurd hsession (by simp [Operation.session?]) }
  | start session reporter path console =>
      simp only [perform]
      rcases create_cases reporter path console with hcreate | ⟨fatal, hcreate⟩
      · rw [hcreate]
        exact .refl _ h
      · rw [hcreate]
        have hfrozen := process.store.frozen_create (some process.globals) []
        exact
          { globals := rfl
            printed := h.printed
            size := hfrozen.scopes
            closures := hfrozen.closures
            scopes := fun id hid _ => hfrozen.kept id hid
            others := fun other hother => process.keep_other _ fun heq => hother (by
              rw [heq, Operation.session?])
            own := by
              rintro other ⟨rfl⟩ workspace hworkspace
              rw [keep_self] at hworkspace
              obtain rfl := Option.some.inj hworkspace
              simp only [keep, opened, Store.size_create]
              exact ⟨Nat.lt_succ_self _, .inl (Nat.le_refl _)⟩ }
  | enter session source =>
      simp only [perform]
      cases hsession : process.sessions session with
      | none => exact .refl _ h
      | some workspace =>
          obtain ⟨hscope, hsize, hclosures, hscopes, hprinted⟩ :=
            Workspace.local_run limits { workspace with store := process.store, output := #[] } source
          exact
            { globals := rfl
              printed := hprinted h.printed
              size := hsize
              closures := hclosures
              scopes := fun id hid hne => hscopes id hid (Ne.symm (hne session rfl workspace hsession))
              others := fun other hother => process.keep_other _ fun heq => hother (by
                rw [heq, Operation.session?])
              own := by
                rintro other ⟨rfl⟩ workspace' hworkspace'
                simp only [keep_self, Option.mem_some_iff] at hworkspace'
                obtain rfl := hworkspace'
                rw [hscope]
                exact ⟨Nat.lt_of_lt_of_le (h.sessions session workspace hsession).2 hsize,
                  .inr ⟨workspace, hsession, rfl⟩⟩ }

/-! ### One session among others -/

/-- Whether a process is, as far as one session is concerned, the same as another process.
    Without a session, only the global scopes are of concern.  The scopes of other
    sessions stand for nothing. -/
structure Apart (party : Option Nat) (w : Correspondence) (process process' : Process) :
    Prop where
  stores : Store.Same .strict w process.store process'.store
  globals : w.scopes process.globals process'.globals
  own : ∀ session, party = some session →
    Option.Rel (Workspace.Same .strict w) (process.sessions session) (process'.sessions session)
  others : ∀ session, party ≠ some session → ∀ workspace ∈ process.sessions session,
    ∀ id', ¬w.scopes workspace.scope id'

/-- An operation of another session is not noticed. -/
theorem Apart.other {party : Option Nat} {w : Correspondence} {process next process' : Process}
    {operation : Operation} (h : Apart party w process process') (hproper : process.Proper)
    (hstep : Step operation process next)
    (hother : ∀ session, operation.session? = some session → party ≠ some session) :
    Apart party w next process' where
  stores :=
    { h.stores with
      scopes := by
        intro id id' hid
        obtain ⟨scope, scope', hscope, hrest⟩ := h.stores.scopes id id' hid
        refine ⟨scope, scope', ?_, hrest⟩
        rw [hstep.scopes id (h.stores.lt hid).1, hscope]
        rintro session hsession workspace hworkspace rfl
        exact h.others session (hother session hsession) workspace hworkspace id' hid
      closures := fun id id' hid =>
        ⟨Nat.lt_of_lt_of_le (h.stores.closures id id' hid).1 hstep.closures,
          (h.stores.closures id id' hid).2⟩
      printed := by
        rw [hstep.printed, ← hproper.printed]
        exact h.stores.printed }
  globals := hstep.globals ▸ h.globals
  own := by
    intro session hsession
    rw [hstep.others session fun heq => hother session heq hsession]
    exact h.own session hsession
  others := by
    intro session hsession workspace hworkspace id' hid
    by_cases hown : operation.session? = some session
    · obtain ⟨-, hnew | ⟨old, hold, heq⟩⟩ := hstep.own session hown workspace hworkspace
      · exact absurd (h.stores.lt hid).1 (Nat.not_lt.2 hnew)
      · exact h.others session hsession old hold id' (heq ▸ hid)
    · rw [hstep.others session hown] at hworkspace
      exact h.others session hsession workspace hworkspace id' hid

/-- Scopes that are new stand for no scope of another session. -/
theorem Apart.others_of_grows {party : Option Nat} {w w' : Correspondence}
    {process process' : Process} {operation : Operation} {next : Process} {after after' : Store}
    (h : Apart party w process process') (hproper : process.Proper)
    (hparty : operation.session? = party) (hstep : Step operation process next)
    (hgrows : w.Grows w' process.store process'.store after after') :
    ∀ session, party ≠ some session → ∀ workspace ∈ next.sessions session,
      ∀ id', ¬w'.scopes workspace.scope id' := by
  intro session hsession workspace hworkspace id' hid
  rw [hstep.others session (hparty ▸ hsession)] at hworkspace
  rcases hgrows.scopes.fresh hid with hold | ⟨hnew, -⟩
  · exact h.others session hsession workspace hworkspace id' hold
  · exact absurd (hproper.sessions session workspace hworkspace).2 (Nat.not_lt.2 hnew)

theorem same_parse (limit : Nat) (source : String) (w : Correspondence) :
    Result.Same .strict (Expr.Same .strict w) (Expr.parse limit source)
      (Expr.parse limit source) := by
  cases hparse : Expr.parse limit source with
  | ok program => exact .ok ((Expr.plain_of_parse hparse).same (fun _ => rfl) w)
  | error reason =>
      cases reason with
      | mistake cause span =>
          cases span with
          | none => exact .error (.mistake cause .none)
          | some span => exact .error (.mistake cause (.some rfl))
      | breakdown cause => exact .error (.breakdown cause)
      | unfinished => exact .error .unfinished

theorem same_run (limits : Limits) (source : String) {w : Correspondence} {scope scope' : ScopeId}
    (hscope : w.scopes scope scope') :
    Action.Same .strict (Store.Same .strict) w (Value.Same .strict) (limits.run source scope)
      (limits.run source scope') := by
  refine (Action.Same.ofExcept fun w₁ _ => same_parse limits.depth source w₁).bind
    fun w₁ program program' hw hprogram => ?_
  refine (Action.Same.create (Store.likeness .strict) (hw.scopes _ _ hscope) .nil).bind
    fun w₂ inner inner' hw' hinner => ?_
  exact Evaluator.same_eval (Store.likeness .strict) limits.rounds limits.depth w₂ _ _ _ _
    (hprogram.mono hw') hinner

theorem Apart.run {w : Correspondence} {process process' : Process}
    (h : Apart none w process process') (hproper : process.Proper) (limits : Limits)
    (source : String) :
    ∃ w', Observation.Same w' (process.perform limits (.run source)).1
        (process'.perform limits (.run source)).1 ∧
      Apart none w' (process.perform limits (.run source)).2
        (process'.perform limits (.run source)).2 := by
  obtain ⟨w', hgrows, hsame, hresult⟩ := same_run limits source h.globals w process.store.quiet
    process'.store.quiet (.refl w) h.stores.quiet
  have hothers := h.others_of_grows hproper rfl (step_perform hproper limits (.run source))
    hgrows.quiet
  refine ⟨w', ⟨hsame.quiet, ?_, congrArg (Array.map Output.printed) hsame.printed_eq, .none⟩,
    ⟨hsame.quiet, hgrows.le.scopes _ _ h.globals, ?_, hothers⟩⟩
  · simp only [Process.perform]
    unfold Store.quiet at hresult
    generalize (limits.run source process.globals { process.store with printed := #[] }).1 = result,
      (limits.run source process'.globals { process'.store with printed := #[] }).1 = result'
      at hresult ⊢
    cases hresult with
    | ok hvalue => exact .ok (.some hvalue)
    | error hreason =>
        simp only [hreason.eq]
        exact .error _
  · intro session hsession
    cases hsession

theorem Apart.start {w : Correspondence} {process process' : Process} {session : Nat}
    (h : Apart (some session) w process process') (hproper : process.Proper) (limits : Limits)
    (reporter : Reporter) (path : String) (console : Bool) :
    let operation : Operation := .start session reporter path console
    ∃ w', Observation.Same w' (process.perform limits operation).1
        (process'.perform limits operation).1 ∧
      Apart (some session) w' (process.perform limits operation).2
        (process'.perform limits operation).2 := by
  have hstep := step_perform hproper limits (.start session reporter path console)
  simp only [Process.perform] at hstep ⊢
  rcases create_cases reporter path console with hcreate | ⟨fatal, hcreate⟩
  · simp only [hcreate]
    exact ⟨w, ⟨h.stores, .error _, rfl, .none⟩, h⟩
  · simp only [hcreate] at hstep ⊢
    have hle := w.le_addScope process.store.scopes.size process'.store.scopes.size
    have hstore : Store.Same .strict (w.addScope process.store.scopes.size process'.store.scopes.size)
        (process.store.create (some process.globals) []).2
        (process'.store.create (some process'.globals) []).2 :=
      h.stores.create (.some h.globals) .nil
    have hgrows := w.grows_addScope process.store process'.store (some process.globals)
      (some process'.globals) [] []
    have hopened : Workspace.Same .strict
        (w.addScope process.store.scopes.size process'.store.scopes.size)
        (opened { reporter with fatal } path process.store process.globals)
        (opened { reporter with fatal } path process'.store process'.globals) :=
      ⟨rfl, .inr ⟨rfl, rfl⟩, rfl, .nil, rfl⟩
    refine ⟨_, ⟨hstore, .ok .none, rfl, .some hopened⟩,
      ⟨hstore, hle.scopes _ _ h.globals, ?_, h.others_of_grows hproper rfl hstep hgrows⟩⟩
    rintro other ⟨rfl⟩
    rw [keep_self, keep_self]
    exact .some hopened

theorem Apart.enter {w : Correspondence} {process process' : Process} {session : Nat}
    (h : Apart (some session) w process process') (hproper : process.Proper) (limits : Limits)
    (source : String) :
    ∃ w', Observation.Same w' (process.perform limits (.enter session source)).1
        (process'.perform limits (.enter session source)).1 ∧
      Apart (some session) w' (process.perform limits (.enter session source)).2
        (process'.perform limits (.enter session source)).2 := by
  have hstep := step_perform hproper limits (.enter session source)
  have hown := h.own session rfl
  simp only [Process.perform] at hstep ⊢
  cases hworkspace : process.sessions session with
  | none =>
      rw [hworkspace] at hown
      cases hworkspace' : process'.sessions session with
      | none => exact ⟨w, ⟨h.stores, .ok .none, rfl, .none⟩, h⟩
      | some workspace' =>
          rw [hworkspace'] at hown
          cases hown
  | some workspace =>
      rw [hworkspace] at hown
      cases hworkspace' : process'.sessions session with
      | none =>
          rw [hworkspace'] at hown
          cases hown
      | some workspace' =>
          rw [hworkspace'] at hown
          simp only [hworkspace] at hstep
          cases hown with
          | some hown =>
              have hshared : Workspace.Same .strict w
                  { workspace with store := process.store, output := #[] }
                  { workspace' with store := process'.store, output := #[] } :=
                ⟨hown.path, hown.scope, hown.reporter, hown.results, rfl⟩
              obtain ⟨w', hgrows, hstore, hsame, hresult⟩ := hshared.run h.stores limits source
              refine ⟨w', ⟨hstore, hresult.map_some, hsame.output, .some hsame⟩,
                ⟨hstore, hgrows.le.scopes _ _ h.globals, ?_,
                  h.others_of_grows hproper rfl hstep hgrows⟩⟩
              rintro other ⟨rfl⟩
              rw [keep_self, keep_self]
              exact .some hsame

/-- An operation of the session comes to the same. -/
theorem Apart.perform {w : Correspondence} {process process' : Process} {operation : Operation}
    (h : Apart operation.session? w process process') (hproper : process.Proper) (limits : Limits) :
    ∃ w', Observation.Same w' (process.perform limits operation).1
        (process'.perform limits operation).1 ∧
      Apart operation.session? w' (process.perform limits operation).2
        (process'.perform limits operation).2 := by
  cases operation with
  | run source => exact h.run hproper limits source
  | start session reporter path console => exact h.start hproper limits reporter path console
  | enter session source => exact h.enter hproper limits source

/-! ### Whole runs -/

/-- The correspondence of the global scopes alone. -/
def globalsOnly : Correspondence :=
  { scopes := fun id id' => id = fresh.globals ∧ id' = fresh.globals
    closures := fun _ _ => False }

theorem proper_fresh : fresh.Proper where
  printed := rfl
  globals := Nat.zero_lt_one
  sessions := fun _ _ hworkspace => absurd hworkspace (by simp [fresh])

theorem apart_fresh (party : Option Nat) : Apart party globalsOnly fresh fresh where
  stores :=
    { scopes := by
        rintro id id' ⟨rfl, rfl⟩
        exact ⟨{ parent := none, bindings := Store.globalBindings 0 },
          { parent := none, bindings := Store.globalBindings 0 }, rfl, rfl,
          ⟨.none, Bindings.same_globals ⟨rfl, rfl⟩⟩, by simp, by simp⟩
      closures := fun _ _ hid => hid.elim
      scopesUnambiguous := by
        rintro a b a' b' ⟨rfl, rfl⟩ ⟨rfl, rfl⟩
        simp
      closuresUnambiguous := fun _ _ _ _ hid => hid.elim
      printed := ⟨#[], rfl, rfl⟩ }
  globals := ⟨rfl, rfl⟩
  own := fun _ _ => .none
  others := fun _ _ _ hworkspace => absurd hworkspace (by simp [fresh])

theorem after_append (limits : Limits) (process : Process) (operations : List Operation)
    (operation : Operation) :
    process.after limits (operations ++ [operation]) =
      ((process.after limits operations).perform limits operation).2 := by
  simp [after]

/-- A process stays proper, and its global scope stays as it was. -/
theorem proper_after (limits : Limits) (operations : List Operation) :
    (fresh.after limits operations).Proper ∧
      (fresh.after limits operations).globals = fresh.globals ∧
      (fresh.after limits operations).store.scopes[fresh.globals]? =
        fresh.store.scopes[fresh.globals]? := by
  induction operations using List.reverseRecOn with
  | nil => exact ⟨proper_fresh, rfl, rfl⟩
  | append_singleton operations operation ih =>
      obtain ⟨hproper, hglobals, hscope⟩ := ih
      have hstep := step_perform hproper limits operation
      rw [after_append]
      refine ⟨hproper.next hstep, hstep.globals.trans hglobals, ?_⟩
      rw [hstep.scopes fresh.globals (hglobals ▸ hproper.globals), hscope]
      intro session hsession workspace hworkspace heq
      have hlt := (hproper.sessions session workspace hworkspace).1
      rw [hglobals, heq] at hlt
      exact Nat.lt_irrefl _ hlt

/-- The same operations without those of other sessions lead to a process that is the same
    as far as the session is concerned. -/
theorem apart_after (limits : Limits) (operation : Operation) (operations : List Operation) :
    ∃ w, Apart operation.session? w (fresh.after limits operations)
      (fresh.after limits (operation.companions operations)) := by
  induction operations using List.reverseRecOn with
  | nil => exact ⟨globalsOnly, apart_fresh _⟩
  | append_singleton operations other ih =>
      obtain ⟨w, hapart⟩ := ih
      have hproper := (proper_after limits operations).1
      rw [after_append]
      by_cases hown : other.session?.isSome && other.session? == operation.session?
      · have hcompanions : operation.companions (operations ++ [other]) =
            operation.companions operations ++ [other] := by
          simp [Operation.companions, List.filter_append, hown]
        obtain ⟨-, heq⟩ := Bool.and_eq_true_iff.1 hown
        rw [← beq_iff_eq.1 heq] at hapart ⊢
        obtain ⟨w', -, hapart'⟩ := hapart.perform hproper limits
        rw [hcompanions, after_append]
        exact ⟨w', hapart'⟩
      · have hcompanions : operation.companions (operations ++ [other]) =
            operation.companions operations := by
          simp [Operation.companions, List.filter_append, hown]
        rw [hcompanions]
        refine ⟨w, hapart.other hproper (step_perform hproper limits other) ?_⟩
        intro session hsession hparty
        exact hown (by simp [hsession, hparty])

/-- Sessions are isolated: after any operations, in whatever order the sessions take turns,
    an operation comes to the same as in a process that has done nothing but the earlier
    operations of the same session.  A program that is run by itself comes to the same
    as in a process that has done nothing.  And no operation changes the global scope. -/
theorem isolated (limits : Limits) (before : List Operation) (operation : Operation) :
    Observation.Alike ((fresh.after limits before).perform limits operation).1
        ((fresh.after limits (operation.companions before)).perform limits operation).1 ∧
      ((fresh.after limits before).perform limits operation).2.store.scopes[fresh.globals]? =
        fresh.store.scopes[fresh.globals]? := by
  constructor
  · obtain ⟨w, hapart⟩ := apart_after limits operation before
    obtain ⟨w', hsame, -⟩ := hapart.perform (proper_after limits before).1 limits
    exact ⟨w', hsame⟩
  · rw [← after_append]
    exact (proper_after limits (before ++ [operation])).2.2

end Process

end CallLang
