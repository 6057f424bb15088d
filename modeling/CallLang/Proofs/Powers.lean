/-
  CallLang/Proofs/Powers.lean
  ===========================
  **A function that calls itself.**

  A power is a product of the base and the next lower power.  The function finds itself by its
  name, in the scope where it was defined, so a call within a call asks the same scope in a
  later store; what it finds there stays the same, for no call changes a scope that exists.

  One call with an exponent other than zero leads to the call with the next lower exponent
  (`Powers.apply_next`).  From zero up, every power is reached by induction on the exponent;
  below zero no call is the last one, and every limit to the depth is too low.
-/
import CallLang.Proofs.Calls
import CallLang.Proofs.Cutoff
import CallLang.Proofs.NumberLine
import CallLang.Proofs.Refusals

namespace CallLang

namespace Powers

/-- The definition of the function. -/
def text : String :=
  "define(pow, fun(base, exp, if(==(exp, 0), 1, *(base, pow(base, -(exp, 1))))))"

/-! ### The program -/

section

-- the places of the nodes, on which nothing depends
variable (s : Nat → Span)

def test : Expr :=
  .call (.name "==" (s 0)) [.name "exp" (s 1), .literal (.int 0) (s 2)] (s 3)

/-- The next lower power. -/
def lower : Expr :=
  .call (.name "pow" (s 4)) [.name "base" (s 5),
    .call (.name "-" (s 6)) [.name "exp" (s 7), .literal (.int 1) (s 8)] (s 9)] (s 10)

def product : Expr :=
  .call (.name "*" (s 11)) [.name "base" (s 12), lower s] (s 13)

def body : Expr :=
  .call (.name "if" (s 14)) [test s, .literal (.int 1) (s 15), product s] (s 16)

def program : Expr :=
  .call (.name "define" (s 17)) [.name "pow" (s 18),
    .call (.name "fun" (s 19)) [.name "base" (s 20), .name "exp" (s 21), body s] (s 22)] (s 23)

end

/-- Where the nodes stand in the text. -/
def places : List Span :=
  [⟨30, 32⟩, ⟨33, 36⟩, ⟨38, 39⟩, ⟨30, 40⟩, ⟨53, 56⟩, ⟨57, 61⟩, ⟨63, 64⟩, ⟨65, 68⟩, ⟨70, 71⟩,
    ⟨63, 72⟩, ⟨53, 73⟩, ⟨45, 46⟩, ⟨47, 51⟩, ⟨45, 74⟩, ⟨27, 29⟩, ⟨42, 43⟩, ⟨27, 75⟩, ⟨0, 6⟩,
    ⟨7, 10⟩, ⟨12, 15⟩, ⟨16, 20⟩, ⟨22, 25⟩, ⟨12, 76⟩, ⟨0, 77⟩]

set_option maxRecDepth 10000 in
theorem exists_parse : ∃ s, ∀ limit, 6 ≤ limit → Expr.parse limit text = .ok (program s) := by
  have hparse : Expr.parse 6 text = .ok (program fun k => places.getD k ⟨0, 0⟩) := by cbv
  refine ⟨fun k => places.getD k ⟨0, 0⟩, fun limit hlimit => ?_⟩
  rw [Reader.parse_of_le hlimit (hparse ▸ ended_ok _), hparse]

/-! ### The function -/

/-- The built-in functions that are called by name. -/
def called : List Builtin := [.equal, .multiply, .subtract]

/-- Whether the function is found in a scope, together with those that it calls. -/
def Known (store : Store) (scope : ScopeId) (pow : Value) : Prop :=
  store.Knows scope "pow" pow called

/-- What a call binds. -/
def bindings (base exp : Int) : Bindings :=
  [("base", .int base), ("exp", .int exp)]

/-- The store in which the body of a call begins. -/
def opened (store : Store) (scope : ScopeId) (base exp : Int) : Store :=
  (store.create (some scope) (bindings base exp)).2

section

open Evaluator

variable {store : Store} {scope : ScopeId} {pow : Value} {base exp : Int} {s : Nat → Span}
  {rounds depth : Nat}

theorem frozen_opened : store.Frozen (opened store scope base exp) :=
  store.frozen_create _ _

/-- Inside of a call, the function is known as it was outside. -/
theorem known_opened (h : Known store scope pow) :
    Known (opened store scope base exp) store.scopes.size pow :=
  h.inner (by simp [bindings, Table.get?_cons])
    (by simp [called, bindings, Builtin.name, Table.get?_cons])

theorem eval_base (span : Span) :
    eval rounds (depth + 1) (.name "base" span) store.scopes.size (opened store scope base exp) =
      (.ok (.int base), opened store scope base exp) :=
  eval_name span (Store.lookup?_own (by simp [bindings, Table.get?_cons]))

theorem eval_exponent (span : Span) :
    eval rounds (depth + 1) (.name "exp" span) store.scopes.size (opened store scope base exp) =
      (.ok (.int exp), opened store scope base exp) :=
  eval_name span (Store.lookup?_own (by simp [bindings, Table.get?_cons]))

theorem eval_test (h : Known store scope pow) :
    eval rounds (depth + 2) (test s) store.scopes.size (opened store scope base exp) =
      (.ok (.boolean (decide (exp = 0))), opened store scope base exp) := by
  refine (eval_builtin (s 0) (s 3) ((known_opened h).offers .equal (by decide))
    (all_pair (eval_exponent (s 1)) (eval_literal (.int 0) (s 2)))).trans ?_
  simp [Builtin.apply, Value.equal, Number.equal_ints, Action.bind, Action.ofBreakdown, Action.pure]

/-- A call within a call. -/
theorem eval_lower (h : Known store scope pow) :
    eval rounds (depth + 3) (lower s) store.scopes.size (opened store scope base exp) =
      apply (depth + 2) (eval rounds (depth + 2)) (some (s 10)) pow
        [.int base, .int (exp - 1)] (opened store scope base exp) := by
  have hless : eval rounds (depth + 2)
      (.call (.name "-" (s 6)) [.name "exp" (s 7), .literal (.int 1) (s 8)] (s 9))
      store.scopes.size (opened store scope base exp) =
      (.ok (.int (exp - 1)), opened store scope base exp) :=
    eval_builtin (s 6) (s 9) ((known_opened h).offers .subtract (by decide))
      (all_pair (eval_exponent (s 7)) (eval_literal (.int 1) (s 8)))
  exact eval_call (s 10) rfl (eval_name (s 4) (known_opened h).bound)
    (all_pair (eval_base (s 5)) hless)

/-- Where a call may not nest deeper, neither may the call within it. -/
theorem eval_lower_shallow (h : Known store scope pow) :
    (eval rounds 2 (lower s) store.scopes.size (opened store scope base exp)).1 =
      .error (.breakdown .tooDeep) :=
  eval_call_stops (s 10) rfl (eval_name (s 4) (known_opened h).bound)
    (all_cons_stops (eval_base (s 5)) (all_stops [] rfl))

/-- The closure that the definition makes. -/
def closure (s : Nat → Span) (id : Nat) (scope : ScopeId) : Value :=
  .closure id ["base", "exp"] (body s) scope

variable {id : Nat} {place : Option Span}

theorem apply_zero (h : Known store scope pow) :
    apply (depth + 3) (eval rounds (depth + 3)) place (closure s id scope)
      [.int base, .int 0] store = (.ok (.int 1), opened store scope base 0) := by
  refine (apply_closure _ place rfl).trans ?_
  exact eval_conditional _ _ (s 14) (s 16) (eval_test h)

theorem apply_of_ne (h : Known store scope pow) (hexp : exp ≠ 0) :
    apply (depth + 3) (eval rounds (depth + 3)) place (closure s id scope)
      [.int base, .int exp] store =
      eval rounds (depth + 2) (product s) store.scopes.size (opened store scope base exp) := by
  refine (apply_closure _ place rfl).trans ?_
  refine (eval_conditional _ _ (s 14) (s 16) (eval_test h)).trans ?_
  rw [decide_eq_false hexp]
  rfl

/-! ### Exponents from zero up -/

/-- Every power is reached, each call but the last by way of the next lower one. -/
theorem apply_natCast {exp : Nat} (h : Known store scope (closure s id scope))
    (hdepth : 3 * exp + 3 ≤ depth) :
    ∃ after, apply depth (eval rounds depth) place (closure s id scope)
        [.int base, .int exp] store = (.ok (.int (base ^ exp)), after) ∧
      after.printed = store.printed := by
  induction exp generalizing store depth place with
  | zero =>
      obtain ⟨depth, rfl⟩ := Nat.exists_eq_add_of_le' hdepth
      refine ⟨opened store scope base 0, ?_, rfl⟩
      rw [pow_zero]
      exact apply_zero h
  | succ exp ih =>
      obtain ⟨depth, rfl⟩ : ∃ rest, depth = rest + 2 + 3 := ⟨depth - 5, by omega⟩
      have hexp : ((exp + 1 : Nat) : Int) ≠ 0 := Int.natCast_ne_zero.2 (Nat.succ_ne_zero exp)
      obtain ⟨after, hlower, hprinted⟩ :=
        @ih (opened store scope base (exp + 1 : Nat)) (depth + 2) (some (s 10))
          (h.of_frozen frozen_opened) (by omega)
      have hfactor : eval rounds (depth + 3) (lower s) store.scopes.size
          (opened store scope base (exp + 1 : Nat)) = (.ok (.int (base ^ exp)), after) := by
        rw [eval_lower h, Nat.cast_succ, add_sub_cancel_right, ← Nat.cast_succ, hlower]
      have hfactors : all (eval rounds (depth + 3)) store.scopes.size
          [.name "base" (s 12), lower s] (opened store scope base (exp + 1 : Nat)) =
          (.ok [.int base, .int (base ^ exp)], after) :=
        all_cons (eval_base (s 12)) (all_cons hfactor rfl)
      refine ⟨after, ?_, hprinted⟩
      rw [apply_of_ne h hexp, pow_succ']
      exact eval_builtin (s 11) (s 13) ((known_opened h).offers .multiply (by decide)) hfactors

/-! ### Exponents below zero -/

/-- A call stops where the call within it does. -/
theorem apply_stops {reason : Stop} (h : Known store scope pow) (hexp : exp ≠ 0)
    (hlower : (eval rounds (depth + 1) (lower s) store.scopes.size
      (opened store scope base exp)).1 = .error reason) :
    (apply (depth + 3) (eval rounds (depth + 3)) place (closure s id scope)
      [.int base, .int exp] store).1 = .error reason := by
  rw [apply_of_ne h hexp]
  exact eval_builtin_stops (s 11) (s 13) ((known_opened h).offers .multiply (by decide))
    (all_cons_stops (eval_base (s 12)) (all_stops [] hlower))

/-- A call that ends under a lower limit would end under one that lets it come to the call
    within it, which may not nest any deeper then. -/
theorem apply_stops_shallow (h : Known store scope pow) (hexp : exp < 0) (hdepth : depth ≤ 4) :
    (apply depth (eval rounds depth) place (closure s id scope)
      [.int base, .int exp] store).1 = .error (.breakdown .tooDeep) := by
  let cuts : Stop → Prop := (· = .breakdown .tooDeep)
  have hdeep : cuts (.breakdown .tooDeep) := rfl
  have hevaluate : Evaluator.CutOf cuts (eval rounds depth) (eval rounds 4) :=
    cutOf_eval hdeep (Nat.le_refl _) (fun hlt => absurd hlt (Nat.lt_irrefl _)) hdepth
  have hcut := cutOf_apply hevaluate hdeep hdepth place (closure s id scope)
    [.int base, .int exp] store
  by_contra hresult
  have hspared : Spared cuts (apply depth (eval rounds depth) place (closure s id scope)
      [.int base, .int exp] store).1 := by
    rintro reason hreason rfl
    exact hresult hreason
  refine hresult ?_
  rw [← hcut.1 hspared]
  exact apply_stops h (Int.ne_of_lt hexp) (eval_lower_shallow h)

/-- Whatever the limit to the depth, a call with an exponent below zero exceeds it. -/
theorem apply_neg (h : Known store scope (closure s id scope)) (hexp : exp < 0) :
    (apply depth (eval rounds depth) place (closure s id scope)
      [.int base, .int exp] store).1 = .error (.breakdown .tooDeep) := by
  -- on the depth that is left: the exponents have no end
  induction depth using Nat.strong_induction_on generalizing exp store place with
  | h depth ih =>
      rcases Nat.lt_or_ge depth 5 with hshallow | hdeep
      · exact apply_stops_shallow h hexp (Nat.le_of_lt_succ hshallow)
      · obtain ⟨depth, rfl⟩ := Nat.exists_eq_add_of_le' hdeep
        refine apply_stops h (Int.ne_of_lt hexp) ?_
        rw [eval_lower h]
        exact ih (depth + 2) (by omega) (h.of_frozen frozen_opened) (by omega)

end

/-! ### Defining the function -/

section

open Evaluator

variable {store : Store} {scope : ScopeId} (s : Nat → Span)

/-- The store after the definition. -/
def defined (s : Nat → Span) (store : Store) (scope : ScopeId) : Store :=
  { store with closures := store.closures + 1 }.define scope "pow"
    (closure s store.closures scope)

theorem eval_program {limits : Limits} (hdepth : 6 ≤ limits.depth) :
    limits.eval (program s) scope store =
      (.ok (closure s store.closures scope), defined s store scope) := by
  obtain ⟨depth, hlimit⟩ := Nat.exists_eq_add_of_le' hdepth
  rw [Limits.eval, hlimit]
  exact eval_define (s 17) (s 18) (s 23)
    (eval_function [.name "base" (s 20), .name "exp" (s 21)] (body s) (s 19) (s 22) rfl)

theorem known_defined (h : ∀ function ∈ called, store.Offers scope function) :
    Known (defined s store scope) scope (closure s store.closures scope) :=
  .of_define (h .equal List.mem_cons_self).lt_size
    (fun function hmem => (h function hmem).of_frozen store.frozen_close) (by decide)

/-- Wherever the built-in functions are found, as they are in a new scope within a global one
    (`Store.offers_begun`), the definition makes a function that computes powers.  With an exponent from zero up, a call that may nest deep enough comes to the exact
    power, prints nothing and changes no scope that exists; with an exponent below zero, every
    call breaks down because it nests too deep, whatever the limit. -/
theorem computes_powers {limits : Limits} (hdepth : 6 ≤ limits.depth)
    (hoffers : ∀ function ∈ called, store.Offers scope function) :
    ∃ program pow defined, Expr.parse limits.depth text = .ok program ∧
      limits.eval program scope store = (.ok pow, defined) ∧
      defined.printed = store.printed ∧ Known defined scope pow ∧
      ∀ later, Known later scope pow → ∀ (limits : Limits) (place : Option Span)
        (base exp : Int),
        (0 ≤ exp → 3 * exp.toNat + 3 ≤ limits.depth →
          ∃ after, limits.apply place pow [.int base, .int exp] later =
              (.ok (.int (base ^ exp.toNat)), after) ∧
            after.printed = later.printed ∧ later.Frozen after ∧ Known after scope pow) ∧
        (exp < 0 → (limits.apply place pow [.int base, .int exp] later).1 =
          .error (.breakdown .tooDeep)) := by
  obtain ⟨s, hparse⟩ := exists_parse
  refine ⟨program s, closure s store.closures scope, defined s store scope, hparse _ hdepth,
    eval_program s hdepth, rfl, known_defined s hoffers, ?_⟩
  refine fun later hknown limits place base exp => ⟨fun hexp hdeep => ?_, apply_neg hknown⟩
  lift exp to Nat using hexp
  rw [Int.toNat_natCast] at hdeep ⊢
  obtain ⟨after, happly, hprinted⟩ : ∃ after, limits.apply place (closure s store.closures scope)
      [.int base, .int exp] later = (.ok (.int (base ^ exp)), after) ∧
      after.printed = later.printed := apply_natCast hknown hdeep
  have hfrozen : later.Frozen (limits.apply place (closure s store.closures scope)
      [.int base, .int exp] later).2 :=
    frozen_apply (local_eval limits.rounds limits.depth) limits.depth place _ _ later
  rw [happly] at hfrozen
  exact ⟨after, happly, hprinted, hfrozen, hknown.of_frozen hfrozen⟩

theorem computes_power_of_two :
    ∃ program pow defined, Expr.parse 6 text = .ok program ∧
      Limits.eval ⟨6, 0⟩ program Store.begun.1 Store.begun.2 = (.ok pow, defined) ∧
      (∃ after, Limits.apply ⟨33, 0⟩ none pow [.int 2, .int 10] defined =
        (.ok (.int 1024), after) ∧ after.printed = #[]) ∧
      (Limits.apply ⟨1000, 0⟩ none pow [.int 2, .int (-1)] defined).1 =
        .error (.breakdown .tooDeep) := by
  obtain ⟨program, pow, defined, hparse, heval, hprinted, hknown, hcalls⟩ :=
    @computes_powers Store.begun.2 Store.begun.1 ⟨6, 0⟩ (Nat.le_refl 6)
      fun function _ => Store.offers_begun function
  obtain ⟨after, happly, hquiet, -⟩ :=
    (hcalls defined hknown ⟨33, 0⟩ none 2 10).1 (by decide) (by decide)
  have hpower : (2 : Int) ^ (10 : Int).toNat = 1024 := by decide
  rw [hpower] at happly
  exact ⟨program, pow, defined, hparse, heval, ⟨after, happly, hquiet.trans hprinted⟩,
    (hcalls defined hknown ⟨1000, 0⟩ none 2 (-1)).2 (by decide)⟩

end

end Powers

end CallLang
