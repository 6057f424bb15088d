/-
  CallLang/Proofs/Blame.lean
  ==========================
  **What a mistake is blamed on.**

  The place of a mistake is that of a node of the program: of the name that is not
  bound, of the parameter that is no name, or else of the call that was being
  evaluated.  A built-in function does not know where it is called; it is told the
  place of the call, as a closure that gets too many or too few arguments is.
-/
import CallLang.Proofs.HostErrors
import CallLang.Proofs.Origins
import CallLang.Proofs.Positions

namespace CallLang

/-! ### Applications -/

/-- Whether all mistakes of an action concern the kinds or ranges of values, and are at one
    place. -/
def Action.MistakesAt {α : Type} (place : Option Span) (action : Action α) : Prop :=
  ∀ store cause found, (action store).1 = .error (.mistake cause found) →
    found = place ∧ (cause.category = .kind ∨ cause.category = .range)

namespace Action.MistakesAt

variable {α β : Type} {place : Option Span}

theorem pure (a : α) : (Action.pure a).MistakesAt place := by
  intro store cause found h
  cases h

theorem stop (cause : Breakdown) :
    (Action.stop (.breakdown cause) : Action α).MistakesAt place := by
  intro store cause found h
  cases h

theorem fail {cause : Mistake} (h : cause.category = .kind ∨ cause.category = .range) :
    (Action.fail cause place : Action α).MistakesAt place := by
  intro store other found hfound
  cases hfound
  exact ⟨rfl, h⟩

theorem bind {first : Action α} {second : α → Action β} (hfirst : first.MistakesAt place)
    (hsecond : ∀ a, (second a).MistakesAt place) :
    (Action.bind first second).MistakesAt place := by
  intro store cause found h
  rcases error_of_bind h with h | ⟨a, after, -, h⟩
  · exact hfirst store cause found h
  · exact hsecond a after cause found h

theorem ofBreakdown (result : Except Breakdown α) :
    (Action.ofBreakdown result).MistakesAt place := by
  cases result with
  | ok a => exact pure a
  | error cause => exact stop cause

end Action.MistakesAt

open CallLang.Action (MistakesAt)

namespace Builtin

variable {a b : Value} {place : Option Span}

theorem mistakesAt_arithmetic (function : Builtin) (operation : Number → Number → Option Number) :
    (arithmetic function operation a b place).MistakesAt place := by
  unfold arithmetic
  split
  · split
    · exact MistakesAt.pure _
    · exact MistakesAt.stop _
  · exact MistakesAt.fail (.inl rfl)

theorem mistakesAt_sum : (sum a b place).MistakesAt place := by
  unfold sum
  split
  · exact MistakesAt.pure _
  · exact mistakesAt_arithmetic _ _
  · exact MistakesAt.fail (.inl rfl)

theorem mistakesAt_quotient : (quotient a b place).MistakesAt place := by
  unfold quotient
  split
  · split
    · exact MistakesAt.pure _
    · exact MistakesAt.fail (.inr rfl)
    · exact MistakesAt.fail (.inr rfl)
  · exact MistakesAt.fail (.inl rfl)

theorem mistakesAt_comparison (function : Builtin) (numbers : Number → Number → Bool)
    (strings : String → String → Bool) :
    (comparison function numbers strings a b place).MistakesAt place := by
  unfold comparison
  split
  · exact MistakesAt.pure _
  · exact MistakesAt.pure _
  · exact MistakesAt.fail (.inl rfl)

theorem mistakesAt_item (items : List Value) (index : Number) :
    (item items index place).MistakesAt place := by
  unfold item
  simp only
  split
  · exact MistakesAt.pure _
  · split
    · exact MistakesAt.fail (.inr rfl)
    · exact MistakesAt.stop _

theorem mistakesAt_apply (limit : Nat) (function : Builtin) (arguments : List Value) :
    (function.apply limit place arguments).MistakesAt place := by
  cases function.use arguments with
  | add a b => exact mistakesAt_sum
  | subtract a b => exact mistakesAt_arithmetic _ _
  | multiply a b => exact mistakesAt_arithmetic _ _
  | divide a b => exact mistakesAt_quotient
  | equal a b => exact .bind (.ofBreakdown _) fun _ => .pure _
  | less a b => exact mistakesAt_comparison _ _ _
  | greater a b => exact mistakesAt_comparison _ _ _
  | print value =>
      refine .bind (.ofBreakdown _) fun text => .bind ?_ fun _ => .pure value
      intro store cause found h
      cases h
  | array items => exact .pure _
  | length value =>
      cases value with
      | array items => exact .pure _
      | _ => exact .fail (.inl rfl)
  | element value index =>
      cases value with
      | array items =>
          cases index with
          | number n => exact mistakesAt_item items n
          | _ => exact .fail (.inl rfl)
      | _ => exact .fail (.inl rfl)
  | wrong hexpected hlength =>
      rw [apply_misused hexpected hlength]
      exact .fail (.inl rfl)

end Builtin

namespace Evaluator

/-- The mistakes of an application that evaluates no body are at the place of the call. -/
theorem mistakesAt_apply (limit : Nat) (evaluate : Evaluator) (place : Option Span)
    {callee : Value} {arguments : List Value} (hopens : ¬callee.Opens arguments) :
    (apply limit evaluate place callee arguments).MistakesAt place := by
  cases callee with
  | closure id parameters body scope =>
      have hlength : arguments.length ≠ parameters.length := by
        intro hlength
        exact hopens ⟨id, parameters, body, scope, rfl, hlength⟩
      simp only [apply, if_neg hlength]
      exact .fail (.inl rfl)
  | builtin function home => exact function.mistakesAt_apply limit arguments
  | _ => exact .bind (.ofBreakdown _) fun _ => .fail (.inl rfl)

/-- Among parameters, the first that is no name is at fault. -/
theorem exists_of_parameterNames_mistake {parameters : List Expr} {cause : Mistake}
    {place : Option Span} (h : parameterNames parameters = .error (.mistake cause place)) :
    ∃ names culprit rest, parameters = names ++ culprit :: rest ∧
      (∀ e ∈ names, ∃ text span, e = .name text span) ∧
      (∀ text span, culprit ≠ .name text span) ∧ cause = .badParameter ∧
      place = some culprit.span := by
  induction parameters with
  | nil => cases h
  | cons parameter rest ih =>
      cases parameter with
      | name text span =>
          have hrest : parameterNames rest = .error (.mistake cause place) := by
            simp only [parameterNames] at h
            cases hnames : parameterNames rest with
            | ok names =>
                rw [hnames] at h
                cases h
            | error reason =>
                rw [hnames] at h
                cases h
                rfl
          obtain ⟨names, culprit, behind, rfl, hnames, hculprit⟩ := ih hrest
          refine ⟨.name text span :: names, culprit, behind, rfl, ?_, hculprit⟩
          intro e he
          rcases List.mem_cons.1 he with rfl | he
          · exact ⟨text, span, rfl⟩
          · exact hnames e he
      | hole => cases h
      | literal value span =>
          cases h
          exact ⟨[], _, rest, rfl, List.forall_mem_nil _, by simp, rfl, rfl⟩
      | call operator arguments span =>
          cases h
          exact ⟨[], _, rest, rfl, List.forall_mem_nil _, by simp, rfl, rfl⟩

end Evaluator

/-! ### Nodes at fault -/

/-- What a mistake is blamed on that is made in the evaluation of an expression: a name that
    stands in the text as it is, the first parameter of a function that is no name, or else the
    call itself. -/
inductive Blames (text : List Char) : Expr → Mistake → Expr → Prop where
  | name {name : String} {span : Span}
      (hspelled : Text.slice text span.start span.stop = name.toList) :
      Blames text (.name name span) (.unbound name) (.name name span)
  | parameter {operator culprit : Expr} {names rest : List Expr} {span : Span}
      (hform : operator.form? = some .function)
      (hnames : ∀ e ∈ names, ∃ text span, e = .name text span)
      (hculprit : ∀ text span, culprit ≠ .name text span) (hrest : rest ≠ []) :
      Blames text (.call operator (names ++ culprit :: rest) span) .badParameter culprit
  | call {operator : Expr} {arguments : List Expr} {span : Span} {cause : Mistake}
      (hcategory : cause.category ≠ .reference) (hcause : cause ≠ .badParameter) :
      Blames text (.call operator arguments span) cause (.call operator arguments span)

theorem Form.misuse_ne_badParameter (f : Form) (count : Nat) : f.misuse count ≠ .badParameter := by
  cases f <;> exact nofun

theorem Form.category_misuse (f : Form) (count : Nat) : (f.misuse count).category = .grammar := by
  cases f <;> rfl

/-- What fails by itself with a mistake has a node to blame, and the mistake is at its place. -/
theorem Moment.Fails.blames {text : List Char} {moment : Moment} {cause : Mistake}
    {place : Option Span} (h : moment.Fails (.mistake cause place)) (hplain : moment.expr.Plain)
    (hstands : moment.expr.StandsIn text) :
    ∃ culprit, Blames text moment.expr cause culprit ∧ moment.expr.HasNode culprit ∧
      place = some culprit.span := by
  cases h with
  | unbound _ =>
      exact ⟨_, .name (hstands.spelled _ _ rfl), Expr.hasNode_refl _, rfl⟩
  | hole => cases hplain
  | @misused operator operands span scope store f hform hsuits =>
      refine ⟨_, .call ?_ (f.misuse_ne_badParameter _), Expr.hasNode_refl _, rfl⟩
      rw [f.category_misuse]
      exact nofun
  | @parameter operator parameters body span scope store _ hform hnames =>
      obtain ⟨names, culprit, rest, rfl, hbefore, hculprit, rfl, rfl⟩ :=
        Evaluator.exists_of_parameterNames_mistake hnames
      refine ⟨culprit, ?_, ?_, rfl⟩
      · rw [List.append_assoc, List.cons_append]
        exact .parameter hform hbefore hculprit (by simp)
      · apply (Expr.hasNode_refl _).child
        simp [Expr.children]
  | @application operator arguments span scope store after callee values limits _ happlies hopens
      _ h =>
      obtain ⟨rfl, hcategory⟩ := Evaluator.mistakesAt_apply _ _ _ hopens _ _ _ h
      refine ⟨_, .call ?_ ?_, Expr.hasNode_refl _, rfl⟩
      · rcases hcategory with hcategory | hcategory <;> rw [hcategory] <;> exact nofun
      · rintro rfl
        rcases hcategory with hcategory | hcategory <;> cases hcategory

/-! ### Programs -/

namespace Process

/-- The global scope has no scope around it, and never binds anything but what it starts with. -/
theorem globals_after (limits : Limits) (operations : List Operation) :
    let process := fresh.after limits operations
    process.store.scopes[process.globals]? =
      some { parent := none, bindings := Store.globalBindings process.globals } := by
  intro process
  obtain ⟨-, hglobals, hscopes⟩ := proper_after limits operations
  simp only [process]
  rw [hglobals, hscopes]
  rfl

end Process

/-- A store in which the scopes of an origin are still to come is covered by it. -/
theorem Origin.covers_of_globals {origin : Origin} {store : Store}
    (hglobals : store.scopes[origin.globals]? =
      some { parent := none, bindings := Store.globalBindings origin.globals })
    (hbase : origin.base = store.scopes.size) : origin.Covers store :=
  ⟨Nat.le_of_eq hbase, Store.holds_of_globals hglobals (fun _ hid => hbase ▸ hid) .boolean
    fun function => .builtin function _⟩

namespace Process

variable {process : Process} {limits : Limits} {source : String} {program : Expr}

/-- A program that is run by itself evaluates nothing but nodes of its own. -/
theorem hasNode_of_reaches {last : Moment} (hplain : program.Plain)
    (hglobals : process.store.scopes[process.globals]? =
      some { parent := none, bindings := Store.globalBindings process.globals })
    (h : (process.start program).Reaches last) : program.HasNode last.expr := by
  let origin := Origin.ofPrograms (· = program) (fun _ heq => heq ▸ hplain) process.globals
    process.store.scopes.size
  have hcovers : origin.Covers process.store := Origin.covers_of_globals hglobals rfl
  have hstart := hcovers.create (.inl rfl) Bindings.all_nil
  obtain ⟨other, rfl, hnode⟩ :=
    origin.nodes_of_reaches h ⟨program, rfl, Expr.hasNode_refl program⟩ hstart.2 hstart.1
  exact hnode

/-- In whatever process a program is run by itself, a mistake has a place in its text.  If the
    text can be read, this is the place of a node of the program that is to blame: the evaluation
    comes to a moment that fails by itself with this mistake, everything before having yielded
    its value. -/
theorem mistake_blamed (earlier : Limits) (operations : List Operation) (limits : Limits)
    (source : String) {cause : Mistake} {place : Option Span} :
    let process := fresh.after earlier operations
    (limits.run source process.globals process.store).1 = .error (.mistake cause place) →
    ∃ span, place = some span ∧ span.start ≤ span.stop ∧ span.stop ≤ source.length ∧
      ∀ program, Expr.parse limits.depth source = .ok program →
        ∃ last culprit, (process.start program).Reaches last ∧
          last.Fails (.mistake cause (some span)) ∧ program.HasNode last.expr ∧
          program.HasNode culprit ∧ culprit.span = span ∧
          Blames source.toList last.expr cause culprit := by
  intro process h
  cases hparse : Expr.parse limits.depth source with
  | error reason =>
      rw [run_of_parse_error hparse] at h
      obtain rfl := Except.error.inj h
      obtain ⟨before, after, s, span, htokens, hpasses, hobstacle, rfl⟩ :=
        Reader.exists_obstacle hparse
      obtain ⟨hle, hlength⟩ := hobstacle.span_le htokens hpasses.closed
      refine ⟨span, rfl, hle, hlength, ?_⟩
      intro program hprogram
      cases hprogram
  | ok program =>
      rw [run_of_parse_ok hparse] at h
      obtain ⟨last, hreaches, hfails⟩ := Moment.exists_of_error id h
      have hplain := Expr.plain_of_parse hparse
      have hnode := hasNode_of_reaches hplain (globals_after earlier operations) hreaches
      obtain ⟨culprit, hblames, hculprit, rfl⟩ :=
        hfails.blames (hplain.node hnode) (Expr.standsIn_of_parse hparse hnode)
      have hbelow : program.HasNode culprit := Relation.ReflTransGen.trans hnode hculprit
      have hstands := Expr.standsIn_of_parse hparse hbelow
      refine ⟨culprit.span, rfl, Nat.le_of_lt hstands.start_lt, hstands.stop_le, ?_⟩
      rintro other ⟨rfl⟩
      exact ⟨last, culprit, hreaches, hfails, hnode, hbelow, rfl, hblames⟩

/-- A function is called far from its body; the sum in the body is to blame. -/
theorem mistake_blamed_sum :
    let source := "do(define(f, fun(x, +(x, \"a\"))), f(1))"
    let cause := Mistake.operands .add true .number .string
    (Limits.run ⟨20, 0⟩ source fresh.globals fresh.store).1 =
        .error (.mistake cause (some ⟨20, 29⟩)) ∧
      ∃ program last culprit, (fresh.start program).Reaches last ∧
        last.Fails (.mistake cause (some ⟨20, 29⟩)) ∧ program.HasNode culprit ∧
        culprit.span = ⟨20, 29⟩ ∧ Blames source.toList last.expr cause culprit := by
  intro source cause
  have hrun : (Limits.run ⟨20, 0⟩ source fresh.globals fresh.store).1 =
      .error (.mistake cause (some ⟨20, 29⟩)) := by
    cbv
  obtain ⟨span, hspan, -, -, hprograms⟩ := mistake_blamed ⟨0, 0⟩ [] ⟨20, 0⟩ source hrun
  obtain rfl := Option.some.inj hspan
  have hparse : ∃ program, Expr.parse 20 source = .ok program := by
    exact ⟨_, by cbv⟩
  obtain ⟨program, hparse⟩ := hparse
  obtain ⟨last, culprit, hreaches, hfails, -, hnode, hplace, hblames⟩ := hprograms program hparse
  exact ⟨hrun, program, last, culprit, hreaches, hfails, hnode, hplace, hblames⟩

end Process

end CallLang
