/-
  CallLang/Proofs/Summation.lean
  ==============================
  **A loop that sums up an array.**

  A function goes through an array with a loop and redefines two names of its own in every
  round.  One of them is the name of the function itself, and its parameter has the name of a
  built-in function; each is hidden inside of a call and remains what it was outside.

  The scope of a call is the only thing that changes, so the store in the middle of the loop
  is known exactly (`Summation.during`): what is summed is the sum of the items before the
  index.  One round leads from one such store to the next, and the loop ends with the array.
-/
import CallLang.Proofs.Calls
import CallLang.Proofs.Elements
import CallLang.Proofs.Refusals

namespace CallLang

namespace Summation

/-- The definition of the function. -/
def text : String :=
  "define(sum, fun(array, do(define(i, 0), define(sum, 0), while(<(i, length(array)), " ++
    "do(define(sum, +(sum, element(array, i))), define(i, +(i, 1)))), sum)))"

/-! ### The program -/

section

-- the places of the nodes, on which nothing depends
variable (s : Nat → Span)

/-- Whether the index lies within the array. -/
def test : Expr :=
  .call (.name "<" (s 0))
    [.name "i" (s 1), .call (.name "length" (s 2)) [.name "array" (s 3)] (s 4)] (s 5)

/-- Adds the item at the index. -/
def addition : Expr :=
  .call (.name "define" (s 6)) [.name "sum" (s 7),
    .call (.name "+" (s 8)) [.name "sum" (s 9),
      .call (.name "element" (s 10)) [.name "array" (s 11), .name "i" (s 12)] (s 13)] (s 14)] (s 15)

/-- Moves the index. -/
def advance : Expr :=
  .call (.name "define" (s 16)) [.name "i" (s 17),
    .call (.name "+" (s 18)) [.name "i" (s 19), .literal (.int 1) (s 20)] (s 21)] (s 22)

def round : Expr :=
  .call (.name "do" (s 23)) [addition s, advance s] (s 24)

def body : Expr :=
  .call (.name "do" (s 25)) [
    .call (.name "define" (s 26)) [.name "i" (s 27), .literal (.int 0) (s 28)] (s 29),
    .call (.name "define" (s 30)) [.name "sum" (s 31), .literal (.int 0) (s 32)] (s 33),
    .call (.name "while" (s 34)) [test s, round s] (s 35),
    .name "sum" (s 36)] (s 37)

def program : Expr :=
  .call (.name "define" (s 38)) [.name "sum" (s 39),
    .call (.name "fun" (s 40)) [.name "array" (s 41), body s] (s 42)] (s 43)

end

/-- Where the nodes stand in the text. -/
def places : List Span :=
  [⟨62, 63⟩, ⟨64, 65⟩, ⟨67, 73⟩, ⟨74, 79⟩, ⟨67, 80⟩, ⟨62, 81⟩, ⟨86, 92⟩, ⟨93, 96⟩, ⟨98, 99⟩,
    ⟨100, 103⟩, ⟨105, 112⟩, ⟨113, 118⟩, ⟨120, 121⟩, ⟨105, 122⟩, ⟨98, 123⟩, ⟨86, 124⟩, ⟨126, 132⟩,
    ⟨133, 134⟩, ⟨136, 137⟩, ⟨138, 139⟩, ⟨141, 142⟩, ⟨136, 143⟩, ⟨126, 144⟩, ⟨83, 85⟩, ⟨83, 145⟩,
    ⟨23, 25⟩, ⟨26, 32⟩, ⟨33, 34⟩, ⟨36, 37⟩, ⟨26, 38⟩, ⟨40, 46⟩, ⟨47, 50⟩, ⟨52, 53⟩, ⟨40, 54⟩,
    ⟨56, 61⟩, ⟨56, 146⟩, ⟨148, 151⟩, ⟨23, 152⟩, ⟨0, 6⟩, ⟨7, 10⟩, ⟨12, 15⟩, ⟨16, 21⟩, ⟨12, 153⟩,
    ⟨0, 154⟩]

set_option maxRecDepth 10000 in
theorem exists_parse : ∃ s, ∀ limit, 8 ≤ limit → Expr.parse limit text = .ok (program s) := by
  have hparse : Expr.parse 8 text = .ok (program fun k => places.getD k ⟨0, 0⟩) := by cbv
  refine ⟨fun k => places.getD k ⟨0, 0⟩, fun limit hlimit => ?_⟩
  rw [Reader.parse_of_le hlimit (hparse ▸ ended_ok _), hparse]

/-! ### One call -/

/-- What a call binds in the middle of the loop. -/
def bindings (items : List Int) (index : Nat) (total : Int) : Bindings :=
  [("array", .array (items.map Value.int)), ("i", .int index), ("sum", .int total)]

/-- The store in the middle of the loop. -/
def during (store : Store) (scope : ScopeId) (items : List Int) (index : Nat) (total : Int) :
    Store :=
  (store.create (some scope) (bindings items index total)).2

/-- The built-in functions that are called by name. -/
def called : List Builtin := [.less, .length, .add, .element]

section

open Evaluator

variable {store : Store} {scope : ScopeId} {items : List Int} {index : Nat} {total : Int}
  (s : Nat → Span) {rounds depth : Nat}

theorem offers_during (h : ∀ function ∈ called, store.Offers scope function) :
    ∀ function ∈ called,
      (during store scope items index total).Offers store.scopes.size function := by
  intro function hmem
  refine (h function hmem).outer ?_
  fin_cases hmem <;> simp [bindings, Builtin.name, Table.get?_cons]

theorem eval_array (span : Span) :
    eval rounds (depth + 1) (.name "array" span) store.scopes.size
      (during store scope items index total) =
      (.ok (.array (items.map Value.int)), during store scope items index total) :=
  eval_name span (Store.lookup?_own (by simp [bindings, Table.get?_cons]))

theorem eval_index (span : Span) :
    eval rounds (depth + 1) (.name "i" span) store.scopes.size
      (during store scope items index total) =
      (.ok (.int index), during store scope items index total) :=
  eval_name span (Store.lookup?_own (by simp [bindings, Table.get?_cons]))

theorem eval_total (span : Span) :
    eval rounds (depth + 1) (.name "sum" span) store.scopes.size
      (during store scope items index total) =
      (.ok (.int total), during store scope items index total) :=
  eval_name span (Store.lookup?_own (by simp [bindings, Table.get?_cons]))

theorem eval_test (h : ∀ function ∈ called, store.Offers scope function) :
    eval rounds (depth + 4) (test s) store.scopes.size (during store scope items index total) =
      (.ok (.boolean (decide (index < items.length))), during store scope items index total) := by
  have hlength : eval rounds (depth + 3) (.call (.name "length" (s 2)) [.name "array" (s 3)] (s 4))
      store.scopes.size (during store scope items index total) =
      (.ok (.int items.length), during store scope items index total) := by
    refine (eval_builtin (s 2) (s 4) (offers_during h .length (by decide))
      (all_cons (eval_array (s 3)) rfl)).trans ?_
    simp [Builtin.apply, Action.pure]
  refine (eval_builtin (s 0) (s 5) (offers_during h .less (by decide))
    (all_pair (eval_index (s 1)) hlength)).trans ?_
  simp [Builtin.apply, Builtin.comparison, Action.pure, Number.lt_ints]

theorem eval_addition (h : ∀ function ∈ called, store.Offers scope function)
    (hindex : index < items.length) :
    eval rounds (depth + 5) (addition s) store.scopes.size (during store scope items index total) =
      (.ok (.int (total + items[index])),
        during store scope items index (total + items[index])) := by
  have helement : eval rounds (depth + 3)
      (.call (.name "element" (s 10)) [.name "array" (s 11), .name "i" (s 12)] (s 13))
      store.scopes.size (during store scope items index total) =
      (.ok (.int items[index]), during store scope items index total) := by
    refine (eval_builtin (s 10) (s 13) (offers_during h .element (by decide))
      (all_pair (eval_array (s 11)) (eval_index (s 12)))).trans ?_
    have hitem : (items.map Value.int)[index]? = some (.int items[index]) := by simp [hindex]
    have hplace : (Number.int index).value? = some ((index : ℚ) : NumberLine) := by
      rw [Number.value?, Int.cast_natCast]
    change Builtin.item (items.map Value.int) (.int index) (some (s 13)) _ = _
    rw [Builtin.item_eq_pure hitem hplace]
    rfl
  have hsum : eval rounds (depth + 4) (.call (.name "+" (s 8)) [.name "sum" (s 9),
      .call (.name "element" (s 10)) [.name "array" (s 11), .name "i" (s 12)] (s 13)] (s 14))
      store.scopes.size (during store scope items index total) =
      (.ok (.int (total + items[index])), during store scope items index total) :=
    eval_builtin (s 8) (s 14) (offers_during h .add (by decide))
      (all_pair (eval_total (s 9)) helement)
  refine (eval_define (s 6) (s 7) (s 15) hsum).trans ?_
  rw [during, Store.define_create]
  simp [bindings, Table.set, during]

theorem eval_advance (h : ∀ function ∈ called, store.Offers scope function) :
    eval rounds (depth + 4) (advance s) store.scopes.size (during store scope items index total) =
      (.ok (.int (index + 1)), during store scope items (index + 1) total) := by
  have hnext : eval rounds (depth + 3)
      (.call (.name "+" (s 18)) [.name "i" (s 19), .literal (.int 1) (s 20)] (s 21))
      store.scopes.size (during store scope items index total) =
      (.ok (.int (index + 1)), during store scope items index total) :=
    eval_builtin (s 18) (s 21) (offers_during h .add (by decide))
      (all_pair (eval_index (s 19)) (eval_literal (.int 1) (s 20)))
  refine (eval_define (s 16) (s 17) (s 22) hnext).trans ?_
  rw [during, Store.define_create]
  simp [bindings, Table.set, during]

/-- A round leads from one item to the next. -/
theorem eval_round (h : ∀ function ∈ called, store.Offers scope function)
    (hindex : index < items.length) :
    eval rounds (depth + 6) (round s) store.scopes.size (during store scope items index total) =
      (.ok (.int (index + 1)), during store scope items (index + 1) (total + items[index])) := by
  refine (congrFun (eval_form .sequence _ (s 23) (s 24)) _).trans ?_
  rw [form_sequence, last_cons _ _ (eval_addition s h hindex), last_cons _ _ (eval_advance s h)]
  rfl

/-- From any item on, the loop adds all items that are left. -/
theorem repeatWhile_rest (h : ∀ function ∈ called, store.Offers scope function)
    (hindex : index ≤ items.length) {limit : Nat} (hlimit : items.length - index < limit) :
    repeatWhile (eval rounds (depth + 6)) store.scopes.size (test s) (round s) limit
      (during store scope items index total) =
      (.ok (.boolean false),
        during store scope items items.length (total + (items.drop index).sum)) := by
  induction limit generalizing index total with
  | zero => exact absurd hlimit (Nat.not_lt_zero _)
  | succ limit ih =>
      have htest : eval rounds (depth + 6) (test s) store.scopes.size
          (during store scope items index total) =
          (.ok (.boolean (decide (index < items.length))), during store scope items index total) :=
        eval_test s h
      by_cases hlast : index < items.length
      · rw [decide_eq_true hlast] at htest
        rw [repeatWhile_true limit htest rfl (eval_round s h hlast), ih hlast (by omega),
          add_assoc, ← List.sum_cons, ← List.drop_eq_getElem_cons hlast]
      · obtain rfl : index = items.length := Nat.le_antisymm hindex (Nat.not_lt.1 hlast)
        rw [decide_eq_false hlast] at htest
        rw [repeatWhile_false _ _ htest, List.drop_length, List.sum_nil, add_zero]

/-- A call comes to the sum of the items, and the array and the two names of the loop are all
    that its scope binds in the end. -/
theorem apply_closure (id : Nat) (place : Option Span)
    (h : ∀ function ∈ called, store.Offers scope function) (hrounds : items.length < rounds) :
    apply (depth + 8) (eval rounds (depth + 8)) place (.closure id ["array"] (body s) scope)
      [.array (items.map Value.int)] store =
      (.ok (.int items.sum), during store scope items items.length items.sum) := by
  have hloop : eval rounds (depth + 7) (.call (.name "while" (s 34)) [test s, round s] (s 35))
      store.scopes.size (during store scope items 0 0) =
      (.ok (.boolean false), during store scope items items.length items.sum) := by
    refine (congrFun (eval_form .loop _ (s 34) (s 35)) _).trans ?_
    rw [form_loop, repeatWhile_rest s h (Nat.zero_le _) hrounds, List.drop_zero, zero_add]
  refine (Evaluator.apply_closure _ place rfl).trans ?_
  refine (congrFun (eval_form .sequence _ (s 25) (s 37)) _).trans ?_
  rw [form_sequence,
    last_cons _ _ (eval_define (s 26) (s 27) (s 29) (eval_literal (.int 0) (s 28))),
    Store.define_create,
    last_cons _ _ (eval_define (s 30) (s 31) (s 33) (eval_literal (.int 0) (s 32))),
    Store.define_create]
  exact (last_cons _ _ hloop).trans (last_cons _ _ (eval_total (s 36)))

end

/-! ### The function -/

/-- What is outside of a call under the names that it hides or calls. -/
def Known (store : Store) (scope : ScopeId) (sum : Value) : Prop :=
  store.Knows scope "sum" sum (.array :: called)

/-- The closure that the definition makes. -/
def closure (s : Nat → Span) (id : Nat) (scope : ScopeId) : Value :=
  .closure id ["array"] (body s) scope

/-- The store after the definition. -/
def defined (s : Nat → Span) (store : Store) (scope : ScopeId) : Store :=
  { store with closures := store.closures + 1 }.define scope "sum"
    (closure s store.closures scope)

variable {store : Store} {scope : ScopeId} (s : Nat → Span)

theorem eval_program {limits : Limits} (hdepth : 8 ≤ limits.depth) :
    limits.eval (program s) scope store =
      (.ok (closure s store.closures scope), defined s store scope) := by
  obtain ⟨depth, hlimit⟩ := Nat.exists_eq_add_of_le' hdepth
  rw [Limits.eval, hlimit]
  exact Evaluator.eval_define (s 38) (s 39) (s 43)
    (Evaluator.eval_function [.name "array" (s 41)] (body s) (s 40) (s 42) rfl)

theorem known_defined (h : ∀ function ∈ Builtin.array :: called, store.Offers scope function) :
    Known (defined s store scope) scope (closure s store.closures scope) :=
  .of_define (h .array List.mem_cons_self).lt_size
    (fun function hmem => (h function hmem).of_frozen store.frozen_close) (by decide)

/-- Wherever the built-in functions are found, as they are in a new scope within a global one
    (`Store.offers_begun`), the definition makes a function that sums up every array of
    integers.  A call ends if only its loop may go round once for each item and
    once more; it prints nothing and changes no scope that exists, so that the two names that
    are hidden inside of it mean outside what they meant before. -/
theorem sums_items {limits : Limits} (hdepth : 8 ≤ limits.depth)
    (hoffers : ∀ function ∈ Builtin.array :: called, store.Offers scope function) :
    ∃ program sum defined, Expr.parse limits.depth text = .ok program ∧
      limits.eval program scope store = (.ok sum, defined) ∧
      defined.printed = store.printed ∧ Known defined scope sum ∧
      ∀ later, Known later scope sum → ∀ (limits : Limits) (place : Option Span)
        (items : List Int), 8 ≤ limits.depth → items.length < limits.rounds →
        ∃ after, limits.apply place sum [.array (items.map Value.int)] later =
            (.ok (.int items.sum), after) ∧
          after.printed = later.printed ∧ later.Frozen after ∧ Known after scope sum := by
  obtain ⟨s, hparse⟩ := exists_parse
  refine ⟨program s, closure s store.closures scope, defined s store scope, hparse _ hdepth,
    eval_program s hdepth, rfl, known_defined s hoffers, ?_⟩
  intro later hknown limits place items hdeep hrounds
  obtain ⟨depth, hlimit⟩ := Nat.exists_eq_add_of_le' hdeep
  have hfrozen : later.Frozen (during later scope items items.length items.sum) :=
    later.frozen_create _ _
  refine ⟨during later scope items items.length items.sum, ?_, rfl, hfrozen,
    hknown.of_frozen hfrozen⟩
  rw [Limits.apply, Limits.eval, hlimit]
  exact apply_closure s store.closures place
    (fun function hmem => hknown.offers function (List.mem_cons_of_mem _ hmem)) hrounds

theorem sums_three_items :
    ∃ program sum defined, Expr.parse 8 text = .ok program ∧
      Limits.eval ⟨8, 4⟩ program Store.begun.1 Store.begun.2 = (.ok sum, defined) ∧
      ∃ after, Limits.apply ⟨8, 4⟩ none sum [.array [.int 3, .int (-1), .int 5]] defined =
          (.ok (.int 7), after) ∧
        after.lookup? Store.begun.1 "sum" = some sum ∧ after.Offers Store.begun.1 .array := by
  obtain ⟨program, sum, defined, hparse, heval, -, hknown, hcalls⟩ :=
    @sums_items Store.begun.2 Store.begun.1 ⟨8, 4⟩ (Nat.le_refl 8)
      fun function _ => Store.offers_begun function
  obtain ⟨after, happly, -, -, hafter⟩ :=
    hcalls defined hknown ⟨8, 4⟩ none [3, -1, 5] (Nat.le_refl 8) (by decide)
  exact ⟨program, sum, defined, hparse, heval, after, happly, hafter.bound,
    hafter.offers .array List.mem_cons_self⟩

end Summation

end CallLang
