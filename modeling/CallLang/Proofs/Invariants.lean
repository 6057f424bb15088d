/-
  CallLang/Proofs/Invariants.lean
  ===============================
  **Invariants of evaluation.**

  An `Invariant` says which stores, scopes, values and expressions may occur and
  for which reasons work may stop.  If it is kept by the smallest actions of
  evaluation, it is kept by evaluation as a whole: this is proved here once, for
  every invariant.
-/
import CallLang.Proofs.Display
import CallLang.Proofs.Locality

namespace CallLang

/-- What may occur in an evaluation.  Scopes and values may depend on the store, but what
    may occur in a store may occur in all stores that grow from it. -/
structure Invariant where
  store : Store → Prop
  scope : Store → ScopeId → Prop
  value : Store → Value → Prop
  expr : Expr → Prop
  stop : Stop → Prop

/-- The texts that a mistake quotes besides the words of the language. -/
def Mistake.quoted : Mistake → List String
  | .unexpected line => [line]
  | .unbound name => [name]
  | .argumentCount function _ _ => [function]
  | .notFunction _ shown => [shown]
  | .indexRange shown _ => [shown]
  | _ => []

/-- What the mistakes of an application may quote: how a value is shown that may occur, and the
    name of a built-in function. -/
inductive Invariant.Shown (I : Invariant) : String → Prop where
  | value {store : Store} {value : Value} {limit : Nat} {text : String}
      (hvalue : I.value store value) (htext : value.display limit false = .ok text) : I.Shown text
  | builtin (function : Builtin) : I.Shown function.name

/-- Whether the smallest actions of evaluation keep an invariant. -/
structure Invariant.Kept (I : Invariant) : Prop where
  scope_grows : ∀ {store after id}, store.Grows after → I.scope store id → I.scope after id
  value_grows : ∀ {store after value}, store.Grows after → I.value store value →
    I.value after value
  -- expressions
  literal : ∀ {store value span}, I.expr (.literal value span) → I.value store value
  operator : ∀ {operator arguments span}, I.expr (.call operator arguments span) → I.expr operator
  operand : ∀ {operator arguments span}, I.expr (.call operator arguments span) →
    ∀ argument ∈ arguments, I.expr argument
  -- values
  number : ∀ {store} n, I.value store (.number n)
  boolean : ∀ {store} b, I.value store (.boolean b)
  join : ∀ {store s t}, I.value store (.string s) → I.value store (.string t) →
    I.value store (.string (s ++ t))
  array : ∀ {store items}, I.value store (.array items) ↔ ∀ item ∈ items, I.value store item
  closure : ∀ {store id parameters body scope}, I.value store (.closure id parameters body scope) →
    I.expr body ∧ I.scope store scope
  -- stores
  lookup : ∀ {store id name value}, I.store store → I.scope store id →
    store.lookup? id name = some value → I.value store value
  create : ∀ {store parent arguments} (parameters : List String), I.store store → I.scope store parent →
    (∀ argument ∈ arguments, I.value store argument) →
    let after := (store.create (some parent) (Table.ofPairs (parameters.zip arguments))).2
    I.store after ∧ I.scope after store.scopes.size
  define : ∀ {store id value} name, I.store store → I.scope store id → I.value store value →
    I.store (store.define id name value)
  print : ∀ {store value limit text}, I.store store → I.value store value →
    value.display limit false = .ok text → I.store (store.print text)
  close : ∀ {store body scope parameters}, I.store store → I.scope store scope → I.expr body →
    (∀ name ∈ parameters, ∃ span, I.expr (.name name span)) →
    let after := { store with closures := store.closures + 1 }
    I.store after ∧ I.value after (.closure store.closures parameters body scope)
  -- reasons to stop
  unbound : ∀ {name span}, I.expr (.name name span) → I.stop (.mistake (.unbound name) (some span))
  misused : ∀ {operator operands span f}, I.expr (.call operator operands span) →
    operator.form? = some f → ¬f.Suits operands →
    I.stop (.mistake (f.misuse operands.length) (some span))
  parameters : ∀ {operator parameters body span reason},
    I.expr (.call operator (parameters ++ [body]) span) → operator.form? = some .function →
    Evaluator.parameterNames parameters = .error reason → I.stop reason
  applied : ∀ {operator arguments span cause}, I.expr (.call operator arguments span) →
    operator.form? = none → (cause.category = .kind ∨ cause.category = .range) →
    (∀ text ∈ cause.quoted, I.Shown text) → I.stop (.mistake cause (some span))
  hole : I.expr .hole → I.stop (.mistake .hole none)
  tooDeep : I.stop (.breakdown .tooDeep)
  unfinished : I.stop .unfinished
  beyondDoubles : I.stop (.breakdown .beyondDoubles)
  longInteger : I.stop (.breakdown .longInteger)

/-- Whether an action keeps an invariant in all stores that grow from a given one, and what
    is known of its value. -/
def Action.Meets {α : Type} (I : Invariant) (store : Store) (action : Action α)
    (post : Store → α → Prop) : Prop :=
  ∀ before, store.Grows before → I.store before →
    I.store (action before).2 ∧ before.Grows (action before).2 ∧
      (∀ a, (action before).1 = .ok a → post (action before).2 a) ∧
      ∀ reason, (action before).1 = .error reason → I.stop reason

/-- The stops that an application may come to at a place. -/
def Invariant.Applies (I : Invariant) (place : Option Span) : Prop :=
  ∀ cause : Mistake, (cause.category = .kind ∨ cause.category = .range) →
    (∀ text ∈ cause.quoted, I.Shown text) → I.stop (.mistake cause place)

namespace Action.Meets

variable {I : Invariant} {store : Store} {α β : Type} {post : Store → α → Prop}

theorem ofExcept {result : Except Stop α}
    (hok : ∀ a, result = .ok a → ∀ after, store.Grows after → post after a)
    (herror : ∀ reason, result = .error reason → I.stop reason) :
    (Action.ofExcept result).Meets I store post :=
  fun before hgrows hstore =>
    ⟨hstore, .refl before, fun a ha => hok a ha before hgrows, herror⟩

theorem pure {a : α} (h : ∀ after, store.Grows after → post after a) :
    (Action.pure a).Meets I store post :=
  ofExcept (fun _ ha => Except.ok.inj ha ▸ h) fun _ hreason => by cases hreason

theorem stop {reason : Stop} (h : I.stop reason) : (Action.stop reason).Meets I store post :=
  ofExcept (fun _ ha => by cases ha) fun _ hreason => Except.error.inj hreason ▸ h

theorem fail {cause : Mistake} {span : Option Span} (h : I.stop (.mistake cause span)) :
    (Action.fail cause span).Meets I store post :=
  stop h

theorem bind {first : Action α} {second : α → Action β} {post' : Store → β → Prop}
    (hfirst : first.Meets I store post)
    (hsecond : ∀ after a, store.Grows after → post after a → (second a).Meets I after post') :
    (Action.bind first second).Meets I store post' := by
  intro before hgrows hstore
  obtain ⟨hafter, hgrows', hok, herror⟩ := hfirst before hgrows hstore
  unfold Action.bind
  generalize first before = out at hafter hgrows' hok herror ⊢
  obtain ⟨result, after⟩ := out
  cases result with
  | ok a =>
      obtain ⟨hlast, hgrows'', hok', herror'⟩ :=
        hsecond after a (hgrows.trans hgrows') (hok a rfl) after (.refl after) hafter
      exact ⟨hlast, hgrows'.trans hgrows'', hok', herror'⟩
  | error reason =>
      refine ⟨hafter, hgrows', fun _ hb => ?_, fun _ hreason => ?_⟩
      · cases hb
      · exact Except.error.inj hreason ▸ herror reason rfl

theorem ofBreakdown {result : Except Breakdown α}
    (hok : ∀ a, result = .ok a → ∀ after, store.Grows after → post after a)
    (herror : ∀ cause, result = .error cause → I.stop (.breakdown cause)) :
    (Action.ofBreakdown result).Meets I store post := by
  cases result with
  | ok a => exact pure (hok a rfl)
  | error cause => exact stop (herror cause rfl)

end Action.Meets

/-! ### Built-in functions -/

open CallLang.Action (Meets)

namespace Builtin

variable {I : Invariant} {store : Store} {a b : Value} {place : Option Span}

theorem meets_arithmetic (hI : I.Kept) (hplace : I.Applies place) (function : Builtin)
    (operation : Number → Number → Option Number) :
    (arithmetic function operation a b place).Meets I store I.value := by
  unfold arithmetic
  split
  · split
    · exact Meets.pure fun _ _ => hI.number _
    · exact Meets.stop hI.beyondDoubles
  · exact Meets.fail (hplace _ (.inl rfl) nofun)

theorem meets_sum (hI : I.Kept) (hplace : I.Applies place) (ha : I.value store a)
    (hb : I.value store b) : (sum a b place).Meets I store I.value := by
  unfold sum
  split
  · exact Meets.pure fun _ hgrows => hI.value_grows hgrows (hI.join ha hb)
  · exact meets_arithmetic hI hplace _ _
  · exact Meets.fail (hplace _ (.inl rfl) nofun)

theorem meets_quotient (hI : I.Kept) (hplace : I.Applies place) :
    (quotient a b place).Meets I store I.value := by
  unfold quotient
  split
  · split
    · exact Meets.pure fun _ _ => hI.number _
    · exact Meets.fail (hplace _ (.inr rfl) nofun)
    · exact Meets.fail (hplace _ (.inr rfl) nofun)
  · exact Meets.fail (hplace _ (.inl rfl) nofun)

theorem meets_comparison (hI : I.Kept) (hplace : I.Applies place) (function : Builtin)
    (numbers : Number → Number → Bool) (strings : String → String → Bool) :
    (comparison function numbers strings a b place).Meets I store I.value := by
  unfold comparison
  split
  · exact Meets.pure fun _ _ => hI.boolean _
  · exact Meets.pure fun _ _ => hI.boolean _
  · exact Meets.fail (hplace _ (.inl rfl) nofun)

theorem meets_item (hI : I.Kept) (hplace : I.Applies place) {items : List Value}
    (hitems : ∀ item ∈ items, I.value store item) (index : Number) :
    (item items index place).Meets I store I.value := by
  unfold item
  simp only
  split
  · next value hvalue =>
      obtain ⟨n, -, hn⟩ := Option.bind_eq_some_iff.1 hvalue
      split at hn
      · cases hn
      · exact Meets.pure fun _ hgrows =>
          hI.value_grows hgrows (hitems value (List.mem_of_getElem? hn))
  · split
    · next shown hshown =>
        have hvalue : I.value store (.number index) := hI.number index
        have htext : (Value.number index).display 1 false = .ok shown := hshown
        exact Meets.fail (hplace _ (.inr rfl)
          (List.forall_mem_singleton.2 (.value hvalue htext)))
    · next cause hcause =>
        rw [(Number.display_eq_error.1 hcause).2]
        exact Meets.stop hI.longInteger

theorem meets_display (hI : I.Kept) (limit : Nat) (nested : Bool) (value : Value) :
    (Action.ofBreakdown (value.display limit nested)).Meets I store fun _ text =>
      value.display limit nested = .ok text := by
  refine Meets.ofBreakdown (fun _ htext _ _ => htext) fun cause hcause => ?_
  rcases Value.error_of_display hcause with rfl | rfl
  · exact hI.tooDeep
  · exact hI.longInteger

theorem meets_apply (hI : I.Kept) (hplace : I.Applies place) (limit : Nat) (function : Builtin)
    {arguments : List Value} (harguments : ∀ argument ∈ arguments, I.value store argument) :
    (function.apply limit place arguments).Meets I store I.value := by
  cases function.use arguments with
  | add a b => exact meets_sum hI hplace (harguments a (by simp)) (harguments b (by simp))
  | subtract a b => exact meets_arithmetic hI hplace _ _
  | multiply a b => exact meets_arithmetic hI hplace _ _
  | divide a b => exact meets_quotient hI hplace
  | equal a b =>
      have hequal : (Action.ofBreakdown (Value.equal limit a b)).Meets I store fun _ _ => True := by
        refine Meets.ofBreakdown (fun _ _ _ _ => trivial) fun cause hcause => ?_
        rw [Value.error_of_equal hcause]
        exact hI.tooDeep
      exact hequal.bind fun _ answer _ _ => Meets.pure fun _ _ => hI.boolean answer
  | less a b => exact meets_comparison hI hplace _ _ _
  | greater a b => exact meets_comparison hI hplace _ _ _
  | print value =>
      have hvalue := harguments value (by simp)
      refine (meets_display hI limit false value).bind fun after text hgrows htext => ?_
      have hprint : (Action.print text).Meets I after fun _ _ => True :=
        fun before hgrows' hstore =>
          ⟨hI.print hstore (hI.value_grows (hgrows.trans hgrows') hvalue) htext,
            (before.frozen_print text).toGrows, fun _ _ => trivial, fun _ hreason => by cases hreason⟩
      refine hprint.bind fun last _ hgrows' _ => Meets.pure fun _ hgrows'' => ?_
      exact hI.value_grows (hgrows.trans (hgrows'.trans hgrows'')) hvalue
  | array items =>
      exact Meets.pure fun _ hgrows => hI.array.2 fun item hmem =>
        hI.value_grows hgrows (harguments item hmem)
  | length value =>
      cases value with
      | array items => exact Meets.pure fun _ _ => hI.number _
      | _ => exact Meets.fail (hplace _ (.inl rfl) nofun)
  | element value index =>
      cases value with
      | array items =>
          cases index with
          | number n => exact meets_item hI hplace (hI.array.1 (harguments _ (by simp))) n
          | _ => exact Meets.fail (hplace _ (.inl rfl) nofun)
      | _ => exact Meets.fail (hplace _ (.inl rfl) nofun)
  | wrong hexpected hlength =>
      rw [apply_misused hexpected hlength]
      exact Meets.fail (hplace _ (.inl rfl) (List.forall_mem_singleton.2 (.builtin function)))

end Builtin

/-! ### Evaluation -/

/-- Whether an evaluator keeps an invariant, evaluating expressions that may occur. -/
def Evaluator.Meets (I : Invariant) (evaluate : Evaluator) : Prop :=
  ∀ store expr scope, I.expr expr → I.scope store scope →
    (evaluate expr scope).Meets I store I.value

namespace Evaluator

variable {I : Invariant} {evaluate : Evaluator} {store : Store} {scope : ScopeId}

theorem meets_all (hI : I.Kept) (h : Evaluator.Meets I evaluate) (hscope : I.scope store scope)
    {exprs : List Expr} (hexprs : ∀ expr ∈ exprs, I.expr expr) :
    (all evaluate scope exprs).Meets I store fun after values =>
      ∀ value ∈ values, I.value after value := by
  induction exprs generalizing store with
  | nil => exact Meets.pure fun _ _ _ hmem => by cases hmem
  | cons expr rest ih =>
      refine (h store expr scope (hexprs expr (by simp)) hscope).bind fun after value hgrows hvalue => ?_
      refine (ih (hI.scope_grows hgrows hscope) fun other hmem => hexprs other (by simp [hmem])).bind
        fun after' values hgrows' hvalues => Meets.pure fun last hgrows'' => ?_
      intro other hmem
      rcases List.mem_cons.1 hmem with rfl | hmem
      · exact hI.value_grows (hgrows'.trans hgrows'') hvalue
      · exact hI.value_grows hgrows'' (hvalues other hmem)

theorem meets_last (hI : I.Kept) (h : Evaluator.Meets I evaluate) (hscope : I.scope store scope)
    {value : Value} (hvalue : I.value store value) {exprs : List Expr}
    (hexprs : ∀ expr ∈ exprs, I.expr expr) :
    (last evaluate scope value exprs).Meets I store I.value := by
  induction exprs generalizing store value with
  | nil => exact Meets.pure fun _ hgrows => hI.value_grows hgrows hvalue
  | cons expr rest ih =>
      refine (h store expr scope (hexprs expr (by simp)) hscope).bind fun after value hgrows hvalue => ?_
      exact ih (hI.scope_grows hgrows hscope) hvalue fun other hmem => hexprs other (by simp [hmem])

theorem meets_repeatWhile (hI : I.Kept) (h : Evaluator.Meets I evaluate)
    (hscope : I.scope store scope) {test body : Expr} (htest : I.expr test) (hbody : I.expr body)
    (rounds : Nat) : (repeatWhile evaluate scope test body rounds).Meets I store I.value := by
  induction rounds generalizing store with
  | zero => exact Meets.stop hI.unfinished
  | succ rounds ih =>
      refine (h store test scope htest hscope).bind fun after answer hgrows _ => ?_
      have hscope' := hI.scope_grows hgrows hscope
      split
      · refine (h after body scope hbody hscope').bind fun after' _ hgrows' _ => ?_
        exact ih (hI.scope_grows hgrows' hscope')
      · exact Meets.pure fun _ _ => hI.boolean false

/-- The names of parameters are those of names among the operands. -/
theorem exists_of_parameterNames {parameters : List Expr} {names : List String}
    (h : parameterNames parameters = .ok names) {name : String} (hname : name ∈ names) :
    ∃ span, Expr.name name span ∈ parameters := by
  induction parameters generalizing names with
  | nil =>
      obtain rfl := Except.ok.inj h
      cases hname
  | cons parameter rest ih =>
      cases parameter with
      | name text span =>
          simp only [parameterNames] at h
          cases hrest : parameterNames rest with
          | error reason =>
              rw [hrest] at h
              cases h
          | ok others =>
              rw [hrest] at h
              obtain rfl := Except.ok.inj h
              rcases List.mem_cons.1 hname with rfl | hname
              · exact ⟨span, List.mem_cons_self⟩
              · obtain ⟨span', hmem⟩ := ih hrest hname
                exact ⟨span', List.mem_cons_of_mem _ hmem⟩
      | _ => cases h

theorem meets_form (hI : I.Kept) (h : Evaluator.Meets I evaluate) (hscope : I.scope store scope)
    (rounds : Nat) {operator : Expr} {f : Form} (hf : operator.form? = some f)
    {operands : List Expr} {span : Span} (hcall : I.expr (.call operator operands span)) :
    (form rounds evaluate scope f operands span).Meets I store I.value := by
  have hoperand := hI.operand hcall
  cases f.use operands with
  | conditional test yes no =>
      rw [form_conditional]
      refine (h store test scope (hoperand test (by simp)) hscope).bind fun after answer hgrows _ => ?_
      have hscope' := hI.scope_grows hgrows hscope
      split
      · exact h after yes scope (hoperand yes (by simp)) hscope'
      · exact h after no scope (hoperand no (by simp)) hscope'
  | loop test body =>
      rw [form_loop]
      exact meets_repeatWhile hI h hscope (hoperand test (by simp)) (hoperand body (by simp)) rounds
  | sequence operands =>
      rw [form_sequence]
      exact meets_last hI h hscope (hI.boolean false) hoperand
  | define name place expr =>
      rw [form_define]
      refine (h store expr scope (hoperand expr (by simp)) hscope).bind
        fun after value hgrows hvalue => ?_
      have hdefine : (Action.define scope name value).Meets I after fun _ _ => True :=
        fun before hgrows' hstore =>
          ⟨hI.define name hstore (hI.scope_grows (hgrows.trans hgrows') hscope)
              (hI.value_grows hgrows' hvalue),
            before.grows_define scope name value, fun _ _ => trivial,
            fun _ hreason => by cases hreason⟩
      refine hdefine.bind fun after' _ hgrows' _ => Meets.pure fun last hgrows'' => ?_
      exact hI.value_grows (hgrows'.trans hgrows'') hvalue
  | function parameters body =>
      rw [form_function]
      have hnames : (Action.ofExcept (parameterNames parameters)).Meets I store fun _ names =>
          ∀ name ∈ names, ∃ span, I.expr (.name name span) :=
        Meets.ofExcept
          (fun names hread _ _ name hmem => by
            obtain ⟨span, hparameter⟩ := exists_of_parameterNames hread hmem
            exact ⟨span, hoperand _ (List.mem_append_left _ hparameter)⟩)
          fun reason hreason => hI.parameters hcall hf hreason
      refine hnames.bind fun after names hgrows hnamed before hgrows' hstore => ?_
      have hclose := hI.close hstore (hI.scope_grows (hgrows.trans hgrows') hscope)
        (hoperand body (by simp)) hnamed
      exact ⟨hclose.1, before.frozen_close.toGrows, fun _ ha => Except.ok.inj ha ▸ hclose.2,
        fun _ hreason => by cases hreason⟩
  | wrong hwrong =>
      rw [form_misused rounds evaluate scope span hwrong]
      exact Meets.fail (hI.misused hcall hf hwrong)

theorem meets_apply (hI : I.Kept) (h : Evaluator.Meets I evaluate) (limit : Nat)
    {place : Option Span} (hplace : I.Applies place) {callee : Value}
    (hcallee : I.value store callee) {arguments : List Value}
    (harguments : ∀ argument ∈ arguments, I.value store argument) :
    (apply limit evaluate place callee arguments).Meets I store I.value := by
  cases callee with
  | closure id parameters body home =>
      obtain ⟨hbody, hhome⟩ := hI.closure hcallee
      simp only [apply]
      split
      · have hcreate : (Action.create (some home)
            (Table.ofPairs (parameters.zip arguments))).Meets I store I.scope := by
          intro before hgrows hstore
          have hnew := hI.create parameters hstore (hI.scope_grows hgrows hhome)
            fun argument hmem => hI.value_grows hgrows (harguments argument hmem)
          exact ⟨hnew.1, (before.frozen_create _ _).toGrows, fun _ ha => Except.ok.inj ha ▸ hnew.2,
            fun _ hreason => by cases hreason⟩
        exact hcreate.bind fun after inner _ hinner => h after body inner hbody hinner
      · have htext : (Value.closure id parameters body home).display 1 false =
            .ok (Value.signature parameters) := rfl
        exact Meets.fail (hplace _ (.inl rfl)
          (List.forall_mem_singleton.2 (.value hcallee htext)))
  | builtin function home => exact function.meets_apply hI hplace limit harguments
  | _ =>
      refine (Builtin.meets_display hI limit false _).bind fun _ _ _ htext => ?_
      exact Meets.fail (hplace _ (.inl rfl) (List.forall_mem_singleton.2 (.value hcallee htext)))

/-- Evaluation keeps every invariant that its smallest actions keep. -/
theorem meets_eval (hI : I.Kept) (rounds depth : Nat) : Evaluator.Meets I (eval rounds depth) := by
  induction depth with
  | zero => exact fun store _ _ _ _ => Meets.stop hI.tooDeep
  | succ depth ih =>
      intro store expr scope hexpr hscope
      cases expr with
      | literal value span =>
          exact Meets.pure fun _ _ => hI.literal hexpr
      | name text span =>
          intro before hgrows hstore
          simp only [eval, Action.lookup]
          split
          · next value hvalue =>
              refine ⟨hstore, .refl before, fun _ ha => ?_, fun _ hreason => by cases hreason⟩
              exact Except.ok.inj ha ▸ hI.lookup hstore (hI.scope_grows hgrows hscope) hvalue
          · refine ⟨hstore, .refl before, fun _ ha => (by cases ha), fun _ hreason => ?_⟩
            exact Except.error.inj hreason ▸ hI.unbound hexpr
      | hole => exact Meets.fail (hI.hole hexpr)
      | call operator arguments span =>
          simp only [eval]
          split
          · next f hf => exact meets_form hI ih hscope rounds hf hexpr
          · next hf =>
              refine (ih store operator scope (hI.operator hexpr) hscope).bind
                fun after callee hgrows hcallee => ?_
              refine (meets_all hI ih (hI.scope_grows hgrows hscope) (hI.operand hexpr)).bind
                fun after' values hgrows' hvalues => ?_
              exact meets_apply hI ih depth (fun cause => hI.applied hexpr hf)
                (hI.value_grows hgrows' hcallee) hvalues

end Evaluator

end CallLang
