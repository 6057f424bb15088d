/-
  CallLang/Proofs/Printing.lean
  =============================
  **What is printed where.**

  The texts that an execution prints come one after another, and each of them shows the
  argument of `print` at one of its moments (`Moment.Prints`).  Whatever a moment
  prints, the moment that has led to it prints as well, and within larger limits it
  stays printed.  So the text with an index is the same within all limits that let the
  execution get so far, and it shows the value that is printed there.
-/
import CallLang.Proofs.Executions

namespace CallLang

theorem Limits.grows_eval (limits : Limits) (expr : Expr) (scope : ScopeId) :
    (limits.eval expr scope).Keeps Store.Grows :=
  fun store => ((limits.writes_local store).1 expr scope).toGrows

theorem Limits.grows_apply (limits : Limits) (place : Option Span) (callee : Value)
    (arguments : List Value) : (limits.apply place callee arguments).Keeps Store.Grows :=
  fun store => ((limits.writes_local store).2 place callee arguments).toGrows

/-- What the first of two actions prints, both print. -/
theorem Action.printed_bind {α β : Type} {first : Action α} {second : α → Action β}
    (hgrows : ∀ a, (second a).Keeps Store.Grows) (store : Store) :
    (first store).2.printed.toList <+: (Action.bind first second store).2.printed.toList := by
  unfold Action.bind
  generalize first store = out
  obtain ⟨reason | a, after⟩ := out
  · exact List.prefix_rfl
  · exact (hgrows a after).printed

theorem getElem?_extended {α : Type} {l l' : List α} (h : l <+: l') {i : Nat} {a : α}
    (hi : l[i]? = some a) : l'[i]? = some a := by
  obtain ⟨rest, rfl⟩ := h
  rw [List.getElem?_append_left (List.getElem?_eq_some_iff.1 hi).1, hi]

namespace Moment

/-- Whether the evaluation prints a text, after as many others as the index says, unless limits
    cut it off before. -/
def Shows (moment : Moment) (index : Nat) (text : String) : Prop :=
  ∃ limits, (moment.run limits).2.printed.toList[index]? = some text

/-- Whether the execution comes to printing a value, after as many texts as the index says. -/
def Prints (start : Moment) (index : Nat) (value : Value) : Prop :=
  ∃ moment home after, start.Reaches moment ∧ moment.Applies (.builtin .print home) [value] after ∧
    after.printed.size = index ∧ ∃ limit text, value.display limit false = .ok text

variable {moment next : Moment} {value : Value} {scope : ScopeId} {store after : Store}
  {exprs : List Expr} {values : List Value} {index : Nat} {text : String}

/-! ### Within large limits -/

theorem printed_of_le (moment : Moment) {depth depth' rounds rounds' : Nat}
    (hdepth : depth ≤ depth') (hrounds : rounds ≤ rounds') :
    (moment.run ⟨depth, rounds⟩).2.printed.toList <+:
      (moment.run ⟨depth', rounds'⟩).2.printed.toList := by
  have hcut : Evaluator.CutOf Stop.CutOff (Limits.eval ⟨depth, rounds⟩)
      (Limits.eval ⟨depth', rounds'⟩) := Limits.cutOf_eval hrounds hdepth
  exact ((hcut moment.expr moment.scope).1 moment.store).2

theorem run_of_yields_le (h : moment.Yields value after) :
    ∃ bound, ∀ depth rounds, bound ≤ depth → bound ≤ rounds →
      moment.run ⟨depth, rounds⟩ = (.ok value, after) := by
  obtain ⟨limits, hrun⟩ := h
  refine ⟨max limits.depth limits.rounds, fun depth rounds hdepth hrounds => ?_⟩
  have hcut : Evaluator.CutOf Stop.CutOff limits.eval (Limits.eval ⟨depth, rounds⟩) :=
    Limits.cutOf_eval (le_of_max_le_right hrounds) (le_of_max_le_left hdepth)
  have hspared : Spared Stop.CutOff (limits.eval moment.expr moment.scope moment.store).1 := by
    rw [show limits.eval moment.expr moment.scope moment.store = _ from hrun]
    exact nofun
  exact (((hcut moment.expr moment.scope).1 moment.store).1 hspared).trans hrun

theorem all_of_yieldAll_le (h : YieldAll scope store exprs values after) :
    ∃ bound, ∀ depth rounds, bound ≤ depth → bound ≤ rounds →
      Evaluator.all (Limits.eval ⟨depth, rounds⟩) scope exprs store = (.ok values, after) := by
  induction h with
  | nil => exact ⟨0, fun _ _ _ _ => rfl⟩
  | cons hvalue hrest ih =>
      obtain ⟨bound, hbound⟩ := run_of_yields_le hvalue
      obtain ⟨bound', hbound'⟩ := ih
      refine ⟨max bound bound', fun depth rounds hdepth hrounds => ?_⟩
      unfold Evaluator.all
      rw [Action.bind_of_ok (hbound depth rounds (le_of_max_le_left hdepth)
          (le_of_max_le_left hrounds)),
        Action.bind_of_ok (hbound' depth rounds (le_of_max_le_right hdepth)
          (le_of_max_le_right hrounds))]
      rfl

theorem run_of_applies_le {callee : Value} (h : moment.Applies callee values after) :
    ∃ bound, ∀ depth rounds, bound ≤ depth → bound ≤ rounds →
      ∃ place, moment.run ⟨depth + 1, rounds⟩ =
        Limits.apply ⟨depth, rounds⟩ place callee values after := by
  cases h with
  | @call operator arguments span scope store between _ _ _ hform hoperator harguments =>
      obtain ⟨bound, hbound⟩ := run_of_yields_le hoperator
      obtain ⟨bound', hbound'⟩ := all_of_yieldAll_le harguments
      refine ⟨max bound bound', fun depth rounds hdepth hrounds => ⟨some span, ?_⟩⟩
      rw [run_call hform, Action.bind_of_ok (hbound depth rounds (le_of_max_le_left hdepth)
          (le_of_max_le_left hrounds)),
        Action.bind_of_ok (hbound' depth rounds (le_of_max_le_right hdepth)
          (le_of_max_le_right hrounds))]

/-- What an expression in a row prints, the row prints. -/
theorem printed_all {before behind : List Expr} {expr : Expr}
    (h : YieldAll scope store before values after) :
    ∃ bound, ∀ depth rounds, bound ≤ depth → bound ≤ rounds →
      (Limits.eval ⟨depth, rounds⟩ expr scope after).2.printed.toList <+:
        (Evaluator.all (Limits.eval ⟨depth, rounds⟩) scope (before ++ expr :: behind)
          store).2.printed.toList := by
  have hgrows : ∀ (limits : Limits) (exprs : List Expr),
      (Evaluator.all limits.eval scope exprs).Keeps Store.Grows :=
    fun limits exprs => .all fun other _ => limits.grows_eval other scope
  induction h with
  | nil =>
      refine ⟨0, fun depth rounds _ _ => Action.printed_bind (fun value => ?_) _⟩
      exact .bind (hgrows _ behind) fun _ => .pure _
  | cons hvalue hrest ih =>
      obtain ⟨bound, hbound⟩ := run_of_yields_le hvalue
      obtain ⟨bound', hbound'⟩ := ih
      refine ⟨max bound bound', fun depth rounds hdepth hrounds => ?_⟩
      rw [List.cons_append]
      unfold Evaluator.all
      rw [Action.bind_of_ok (hbound depth rounds (le_of_max_le_left hdepth)
        (le_of_max_le_left hrounds))]
      refine (hbound' depth rounds (le_of_max_le_right hdepth)
        (le_of_max_le_right hrounds)).trans ?_
      exact Action.printed_bind (fun _ => .pure _) _

/-! ### From moment to moment -/

/-- What an evaluation prints that another starts, the other prints. -/
theorem printed_of_enters (h : moment.Enters next) :
    ∃ bound, ∀ depth rounds, bound ≤ depth → bound ≤ rounds → ∃ limits,
      (next.run ⟨depth, rounds⟩).2.printed.toList <+: (moment.run limits).2.printed.toList := by
  cases h with
  | operator hform =>
      refine ⟨0, fun depth rounds _ _ => ⟨⟨depth + 1, rounds⟩, ?_⟩⟩
      rw [run_call hform]
      refine Action.printed_bind (fun callee => ?_) _
      exact .bind (.all fun other _ => Limits.grows_eval _ other _) fun _ => Limits.grows_apply _ _ _ _
  | argument hform hoperator hbefore =>
      obtain ⟨bound, hbound⟩ := run_of_yields_le hoperator
      obtain ⟨bound', hbound'⟩ := printed_all hbefore
      refine ⟨max bound bound', fun depth rounds hdepth hrounds => ⟨⟨depth + 1, rounds⟩, ?_⟩⟩
      rw [run_call hform, Action.bind_of_ok (hbound depth rounds (le_of_max_le_left hdepth)
        (le_of_max_le_left hrounds))]
      refine (hbound' depth rounds (le_of_max_le_right hdepth)
        (le_of_max_le_right hrounds)).trans ?_
      exact Action.printed_bind (fun _ => Limits.grows_apply _ _ _ _) _
  | body happlies hlength =>
      obtain ⟨bound, hbound⟩ := run_of_applies_le happlies
      refine ⟨bound, fun depth rounds hdepth hrounds => ⟨⟨depth + 1, rounds⟩, ?_⟩⟩
      obtain ⟨place, hrun⟩ := hbound depth rounds hdepth hrounds
      rw [hrun]
      simp only [Limits.apply, Evaluator.apply, if_pos hlength]
      exact List.prefix_rfl
  | test hform =>
      refine ⟨0, fun depth rounds _ _ => ⟨⟨depth + 1, rounds⟩, ?_⟩⟩
      rw [run_form hform, Evaluator.form_conditional]
      refine Action.printed_bind (fun answer => ?_) _
      split <;> exact Limits.grows_eval _ _ _
  | branch hform htest =>
      obtain ⟨bound, hbound⟩ := run_of_yields_le htest
      refine ⟨bound, fun depth rounds hdepth hrounds => ⟨⟨depth + 1, rounds⟩, ?_⟩⟩
      rw [run_form hform, Evaluator.form_conditional,
        Action.bind_of_ok (hbound depth rounds hdepth hrounds)]
      split <;> exact List.prefix_rfl
  | loopTest hform =>
      refine ⟨0, fun depth rounds _ _ => ⟨⟨depth + 1, rounds + 1⟩, ?_⟩⟩
      refine (printed_of_le _ (Nat.le_refl depth) (Nat.le_succ rounds)).trans ?_
      rw [run_form hform, Evaluator.form_loop]
      refine Action.printed_bind (fun answer => ?_) _
      split
      · exact .bind (Limits.grows_eval _ _ _) fun _ =>
          .repeatWhile _ (Limits.grows_eval _ _ _) (Limits.grows_eval _ _ _)
      · exact .pure _
  | loopBody hform htest htrue =>
      obtain ⟨bound, hbound⟩ := run_of_yields_le htest
      refine ⟨bound, fun depth rounds hdepth hrounds => ⟨⟨depth + 1, rounds + 1⟩, ?_⟩⟩
      refine (printed_of_le _ (Nat.le_refl depth) (Nat.le_succ rounds)).trans ?_
      rw [run_form hform, Evaluator.form_loop, Evaluator.repeatWhile,
        Action.bind_of_ok (hbound depth (rounds + 1) hdepth (Nat.le_succ_of_le hrounds)), if_pos htrue]
      exact Action.printed_bind (fun _ =>
        .repeatWhile _ (Limits.grows_eval _ _ _) (Limits.grows_eval _ _ _)) _
  | @again operator test body span scope store between after answer value hform htest htrue hbody =>
      obtain ⟨bound, hbound⟩ := run_of_yields_le htest
      obtain ⟨bound', hbound'⟩ := run_of_yields_le hbody
      refine ⟨max bound bound', fun depth rounds hdepth hrounds => ⟨⟨depth + 1, rounds + 1⟩, ?_⟩⟩
      refine (printed_of_le _ (Nat.le_succ depth) (Nat.le_refl rounds)).trans ?_
      rw [run_form hform, Evaluator.form_loop, run_form hform, Evaluator.form_loop,
        Evaluator.repeatWhile,
        Action.bind_of_ok (hbound depth (rounds + 1) (le_of_max_le_left hdepth)
          (Nat.le_succ_of_le (le_of_max_le_left hrounds))), if_pos htrue,
        Action.bind_of_ok (hbound' depth (rounds + 1) (le_of_max_le_right hdepth)
          (Nat.le_succ_of_le (le_of_max_le_right hrounds)))]
      have hcut : Evaluator.CutOf Stop.CutOff (Limits.eval ⟨depth, rounds⟩)
          (Limits.eval ⟨depth, rounds + 1⟩) :=
        Limits.cutOf_eval (Nat.le_succ rounds) (Nat.le_refl depth)
      exact (Evaluator.cutOf_repeatWhile hcut test body (Nat.le_refl rounds)
        (fun _ => cutOff_unfinished) after).2
  | element hform hbefore =>
      obtain ⟨bound, hbound⟩ := printed_all hbefore
      refine ⟨bound, fun depth rounds hdepth hrounds => ⟨⟨depth + 1, rounds⟩, ?_⟩⟩
      rw [run_form hform, Evaluator.form_sequence, last_eq]
      refine (hbound depth rounds hdepth hrounds).trans ?_
      exact Action.printed_bind (fun _ => .pure _) _
  | definition hform =>
      refine ⟨0, fun depth rounds _ _ => ⟨⟨depth + 1, rounds⟩, ?_⟩⟩
      rw [run_form hform, Evaluator.form_define]
      refine Action.printed_bind (fun value => .bind ?_ fun _ => .pure _) _
      exact fun store => store.grows_define _ _ _

theorem Enters.shows (h : moment.Enters next) (hshows : next.Shows index text) :
    moment.Shows index text := by
  obtain ⟨limits, hindex⟩ := hshows
  obtain ⟨bound, hbound⟩ := printed_of_enters h
  obtain ⟨limits', hprinted⟩ := hbound (max bound limits.depth) (max bound limits.rounds)
    (Nat.le_max_left _ _) (Nat.le_max_left _ _)
  have hlarger := next.printed_of_le (Nat.le_max_right bound limits.depth)
    (Nat.le_max_right bound limits.rounds)
  exact ⟨limits', getElem?_extended hprinted (getElem?_extended hlarger hindex)⟩

theorem Reaches.shows (h : moment.Reaches next) (hshows : next.Shows index text) :
    moment.Shows index text := by
  induction h with
  | refl => exact hshows
  | tail _ henters ih => exact ih (henters.shows hshows)

/-- Within all limits that let the evaluation get so far, it prints the same text. -/
theorem Shows.eq (h : moment.Shows index text) {limits : Limits} {other : String}
    (hother : (moment.run limits).2.printed.toList[index]? = some other) : other = text := by
  obtain ⟨limits', htext⟩ := h
  have hleft := moment.printed_of_le (Nat.le_max_left limits.depth limits'.depth)
    (Nat.le_max_left limits.rounds limits'.rounds)
  have hright := moment.printed_of_le (Nat.le_max_right limits.depth limits'.depth)
    (Nat.le_max_right limits.rounds limits'.rounds)
  have hequal := (getElem?_extended hleft hother).symm.trans (getElem?_extended hright htext)
  exact Option.some.inj hequal

/-- Where a value is printed, its text is. -/
theorem Prints.shows (h : moment.Prints index value) :
    ∃ limit text, value.display limit false = .ok text ∧ moment.Shows index text := by
  obtain ⟨last, home, after, hreaches, happlies, rfl, limit, text, htext⟩ := h
  obtain ⟨bound, hbound⟩ := run_of_applies_le happlies
  refine ⟨limit, text, htext, hreaches.shows ⟨⟨max bound limit + 1, bound⟩, ?_⟩⟩
  obtain ⟨place, hrun⟩ := hbound (max bound limit) bound (Nat.le_max_left _ _) (Nat.le_refl _)
  have hlarger : value.display (max bound limit) false = .ok text := by
    rw [Value.display_of_le (Nat.le_max_right _ _) (htext ▸ nofun), htext]
  have happly : Limits.apply ⟨max bound limit, bound⟩ place (.builtin .print home) [value] after =
      (.ok value, after.print text) := by
    simp only [Limits.apply, Evaluator.apply, Builtin.apply, hlarger]
    rfl
  rw [hrun, happly, Store.print_printed, Array.toList_push, List.getElem?_append_right (by simp)]
  simp

/-! ### Where texts come from -/

/-- Whether all that is printed between two stores is printed at moments of an execution. -/
def Traces (moment : Moment) (before after : Store) : Prop :=
  ∀ index, before.printed.size ≤ index → index < after.printed.size →
    ∃ value, moment.Prints index value

theorem Traces.refl (moment : Moment) (store : Store) : moment.Traces store store :=
  fun _ hlow hhigh => absurd hhigh (Nat.not_lt.2 hlow)

theorem Traces.trans {between : Store} (h : moment.Traces store between)
    (h' : moment.Traces between after) : moment.Traces store after := by
  intro index hlow hhigh
  by_cases hindex : index < between.printed.size
  · exact h index hlow hindex
  · exact h' index (Nat.le_of_not_lt hindex) hhigh

theorem Traces.of_reaches (hreaches : moment.Reaches next) (h : next.Traces store after) :
    moment.Traces store after := by
  intro index hlow hhigh
  obtain ⟨value, last, home, after, hlast, hprints⟩ := h index hlow hhigh
  exact ⟨value, last, home, after, hreaches.trans hlast, hprints⟩

/-- If what comes of the first of two actions is traced, and what comes of the second behind it,
    then what comes of both is. -/
theorem traces_bind {α β : Type} {first : Action α} {second : α → Action β}
    (hfirst : moment.Traces store (first store).2)
    (hsecond : ∀ a between, first store = (.ok a, between) →
      moment.Traces between (second a between).2) :
    moment.Traces store (Action.bind first second store).2 := by
  unfold Action.bind
  generalize hout : first store = out at hfirst hsecond ⊢
  obtain ⟨reason | a, between⟩ := out
  · exact hfirst
  · exact hfirst.trans (hsecond a between rfl)

variable {limits : Limits} {depth rounds : Nat}

theorem traces_all (moment : Moment) (exprs : List Expr)
    (h : ∀ before expr behind values between, exprs = before ++ expr :: behind →
      YieldAll scope store before values between →
      moment.Traces between (limits.eval expr scope between).2) :
    moment.Traces store (Evaluator.all limits.eval scope exprs store).2 := by
  induction exprs generalizing store with
  | nil => exact .refl moment store
  | cons expr rest ih =>
      refine traces_bind (h [] expr rest [] store rfl .nil) fun value between hvalue => ?_
      refine traces_bind (ih fun before other behind values last hrest hbefore => ?_)
        fun values last _ => .refl moment last
      exact h (expr :: before) other behind (value :: values) last (by rw [hrest]; rfl)
        (.cons ⟨limits, hvalue⟩ hbefore)

/-- A loop prints in its test and in its body, in one round after another. -/
theorem traces_repeatWhile {operator test body : Expr} {span : Span}
    (hform : operator.form? = some .loop)
    (ih : ∀ next : Moment, next.Traces next.store (next.run limits).2) (rounds : Nat) :
    Traces ⟨.call operator [test, body] span, scope, store⟩ store
      (Evaluator.repeatWhile limits.eval scope test body rounds store).2 := by
  induction rounds generalizing store with
  | zero => exact .refl _ store
  | succ rounds ihrounds =>
      have htests : Traces ⟨.call operator [test, body] span, scope, store⟩ store
          (limits.eval test scope store).2 :=
        .of_reaches (.single (.loopTest hform)) (ih ⟨test, scope, store⟩)
      refine traces_bind htests fun answer between htest => ?_
      split
      · next htrue =>
          have hbodies : Traces ⟨.call operator [test, body] span, scope, store⟩ between
              (limits.eval body scope between).2 :=
            .of_reaches (.single (.loopBody hform ⟨_, htest⟩ htrue)) (ih ⟨body, scope, between⟩)
          exact traces_bind hbodies fun value after hbody =>
            .of_reaches (.single (.again hform ⟨_, htest⟩ htrue ⟨_, hbody⟩)) ihrounds
      · exact .refl _ between

theorem traces_form {operator : Expr} {f : Form} {operands : List Expr} {span : Span}
    (hform : operator.form? = some f)
    (ih : ∀ next : Moment, next.Traces next.store (next.run ⟨depth, rounds⟩).2) :
    Traces ⟨.call operator operands span, scope, store⟩ store
      (Evaluator.form rounds (Limits.eval ⟨depth, rounds⟩) scope f operands span store).2 := by
  have hpart : ∀ {start next : Moment}, start.Enters next →
      start.Traces next.store (next.run ⟨depth, rounds⟩).2 :=
    fun henters => .of_reaches (.single henters) (ih _)
  cases f.use operands with
  | conditional test yes no =>
      rw [Evaluator.form_conditional]
      refine traces_bind (hpart (.test hform)) fun answer between htest => ?_
      have hbranch : Enters ⟨.call operator [test, yes, no] span, scope, store⟩
          ⟨if answer.isTrue then yes else no, scope, between⟩ := .branch hform ⟨_, htest⟩
      split
      · next htrue => exact hpart ((if_pos htrue : (if answer.isTrue then yes else no) = yes) ▸ hbranch)
      · next hfalse => exact hpart ((if_neg hfalse : (if answer.isTrue then yes else no) = no) ▸ hbranch)
  | loop test body =>
      rw [Evaluator.form_loop]
      exact traces_repeatWhile hform ih rounds
  | sequence operands =>
      rw [Evaluator.form_sequence, last_eq]
      refine traces_bind (traces_all _ operands ?_) fun _ last _ => .refl _ last
      rintro before expr behind values between rfl hbefore
      exact hpart (.element hform hbefore)
  | define name place expr =>
      rw [Evaluator.form_define]
      exact traces_bind (hpart (.definition hform)) fun value between _ => .refl _ between
  | function parameters body =>
      rw [Evaluator.form_function]
      exact traces_bind (.refl _ store) fun names between _ => .refl _ between
  | wrong hwrong =>
      rw [Evaluator.form_misused rounds _ scope span hwrong]
      exact .refl _ store

end Moment

/-- No built-in function but `print` does anything to the store. -/
theorem Builtin.apply_store {function : Builtin} (h : function ≠ .print) (limit : Nat)
    (place : Option Span) (arguments : List Value) (store : Store) :
    (function.apply limit place arguments store).2 = store := by
  suffices hkeeps : (function.apply limit place arguments).Keeps Eq from (hkeeps store).symm
  cases function.use arguments with
  | add a b => exact keeps_sum a b place
  | subtract a b => exact keeps_arithmetic _ _ a b place
  | multiply a b => exact keeps_arithmetic _ _ a b place
  | divide a b => exact keeps_quotient a b place
  | equal a b => exact .bind (.ofBreakdown _) fun _ => .pure _
  | less a b => exact keeps_comparison _ _ _ a b place
  | greater a b => exact keeps_comparison _ _ _ a b place
  | print value => exact absurd rfl h
  | array items => exact .pure _
  | length value => cases value <;> first | exact .pure _ | exact .fail _ _
  | element value index =>
      cases value with
      | array items => cases index <;> first | exact keeps_item _ _ _ | exact .fail _ _
      | _ => exact .fail _ _
  | wrong hexpected hlength =>
      rw [apply_misused hexpected hlength]
      exact .fail _ _

namespace Moment

variable {moment : Moment} {value : Value} {after : Store} {values : List Value}

/-- An application prints in the body of a closure, or it prints the argument of `print`. -/
theorem traces_apply {callee : Value} (happlies : moment.Applies callee values after)
    {limits : Limits} (place : Option Span)
    (ih : ∀ next : Moment, next.Traces next.store (next.run limits).2) :
    moment.Traces after (limits.apply place callee values after).2 := by
  cases callee with
  | closure id parameters body home =>
      simp only [Limits.apply, Evaluator.apply]
      split
      · next hlength =>
          exact .of_reaches (.single (.body happlies hlength)) (ih ⟨body, after.scopes.size,
            (after.create (some home) (Table.ofPairs (parameters.zip values))).2⟩)
      · exact .refl moment after
  | builtin function home =>
      by_cases hprint : function = .print ∧ ∃ value, values = [value]
      · obtain ⟨rfl, value, rfl⟩ := hprint
        simp only [Limits.apply, Evaluator.apply, Builtin.apply]
        cases htext : Value.display limits.depth false value with
        | error cause => exact .refl moment after
        | ok text =>
            intro index hlow hhigh
            have hsize : index < (after.print text).printed.size := hhigh
            rw [Store.print_printed, Array.size_push] at hsize
            have hindex : after.printed.size = index :=
              Nat.le_antisymm hlow (Nat.le_of_lt_succ hsize)
            exact ⟨value, moment, home, after, .refl, happlies, hindex, _, text, htext⟩
      · have hstore : (function.apply limits.depth place values after).2 = after := by
          by_cases hfunction : function = .print
          · subst hfunction
            have hlength : values.length ≠ 1 := fun hlength =>
              hprint ⟨rfl, List.length_eq_one_iff.1 hlength⟩
            rw [Builtin.apply_misused rfl hlength]
            rfl
          · exact Builtin.apply_store hfunction _ _ _ _
        simp only [Limits.apply, Evaluator.apply, hstore]
        exact .refl moment after
  | _ =>
      simp only [Limits.apply, Evaluator.apply]
      exact traces_bind (by cases Value.display _ _ _ <;> exact .refl moment after)
        fun _ between _ => .refl moment between

/-- Every text that an evaluation prints shows a value that its execution comes to printing. -/
theorem traces_run (moment : Moment) (limits : Limits) :
    moment.Traces moment.store (moment.run limits).2 := by
  obtain ⟨depth, rounds⟩ := limits
  induction depth generalizing moment with
  | zero => exact .refl moment moment.store
  | succ depth ih =>
      obtain ⟨expr, scope, store⟩ := moment
      cases expr with
      | literal value span => exact .refl _ store
      | name text span =>
          simp only [run, Limits.eval, eval, Action.lookup]
          split <;> exact .refl _ store
      | hole => exact .refl _ store
      | call operator arguments span =>
          cases hform : operator.form? with
          | some f =>
              rw [run_form hform]
              exact traces_form hform fun next => ih next
          | none =>
              rw [run_call hform]
              have hoperators : Traces ⟨.call operator arguments span, scope, store⟩ store
                  (Limits.eval ⟨depth, rounds⟩ operator scope store).2 :=
                .of_reaches (.single (.operator hform)) (ih ⟨operator, scope, store⟩)
              refine traces_bind hoperators fun callee between hoperator => ?_
              refine traces_bind (traces_all _ arguments ?_) fun values last harguments => ?_
              · rintro before argument behind values last rfl hbefore
                exact .of_reaches (.single (.argument hform ⟨_, hoperator⟩ hbefore))
                  (ih ⟨argument, scope, last⟩)
              · exact traces_apply (.call hform ⟨_, hoperator⟩ (yieldAll_of_all harguments)) _
                  fun next => ih next

end Moment

end CallLang
