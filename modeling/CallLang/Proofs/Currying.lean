/-
  CallLang/Proofs/Currying.lean
  =============================
  **Currying.**

  A function of two parameters does the same as a function of the first that yields a
  function of the second with the same body.

  The one evaluates the body in a scope that binds both parameters, the other in a scope for
  the second inside a scope for the first.  Nothing else ever uses this outer scope, so the
  two can be merged, also where both parameters have one name: the inner scope hides what the
  outer one binds, and a table keeps what was written last.
-/
import CallLang.Proofs.Observations
import CallLang.Proofs.Splitting

namespace CallLang

/-! ### Making functions -/

/-- Whether an expression makes a function of certain parameters with a certain body. -/
inductive Expr.Makes : Expr → List String → Expr → Prop where
  | call {operator : Expr} {operands : List Expr} {parameters : List String} (body : Expr)
      (span : Span) (hform : operator.form? = some .function)
      (hnames : Evaluator.parameterNames operands = .ok parameters) :
      Expr.Makes (.call operator (operands ++ [body]) span) parameters body

namespace Expr.Makes

variable {parameters : List String} {body expr : Expr}

theorem eval_succ (h : expr.Makes parameters body) (rounds depth : Nat) (scope : ScopeId) :
    CallLang.eval rounds (depth + 1) expr scope = Action.close parameters body scope := by
  cases h with
  | call body span hform hnames =>
      simp only [CallLang.eval, hform]
      rw [Evaluator.form_function, hnames]
      rfl

/-- The value of an expression that makes a function is a closure of its scope. -/
theorem eq_closure (h : expr.Makes parameters body) {limits : Limits} {scope : ScopeId}
    {store : Store} {value : Value} (hvalue : (limits.eval expr scope store).1 = .ok value) :
    ∃ id, value = .closure id parameters body scope := by
  obtain ⟨depth, rounds⟩ := limits
  cases depth with
  | zero => cases hvalue
  | succ depth =>
      rw [Limits.eval, h.eval_succ] at hvalue
      exact ⟨store.closures, (Except.ok.inj hvalue).symm⟩

end Expr.Makes

/-! ### Scopes for two arguments -/

namespace Table

variable {α : Type} {a b : String} {v w : α}

theorem get?_single (name : String) :
    (ofPairs [(a, v)]).get? name = if name = a then some v else none := by
  simp [ofPairs, get?_set]

/-- A table of two entries has what a table of the second has, or else what one of the first
    has. -/
theorem get?_pair (name : String) :
    (ofPairs [(a, v), (b, w)]).get? name =
      ((ofPairs [(b, w)]).get? name).or ((ofPairs [(a, v)]).get? name) := by
  simp only [ofPairs, List.foldl_cons, List.foldl_nil, get?_set, get?_nil]
  by_cases hname : name = b
  · rw [if_pos hname, if_pos hname, Option.some_or]
  · rw [if_neg hname, if_neg hname, Option.none_or]

end Table

/-- The store in which a function of one parameter evaluates its body. -/
def Store.call (store : Store) (scope : ScopeId) (name : String) (value : Value) : Store :=
  (store.create (some scope) (Table.ofPairs [(name, value)])).2

/-- The store in which a function of two parameters evaluates its body. -/
def Store.callBoth (store : Store) (scope : ScopeId) (a b : String) (v w : Value) : Store :=
  (store.create (some scope) (Table.ofPairs [(a, v), (b, w)])).2

/-- The store in which a function of one parameter evaluates its body if it is the value of
    another and was made in the scope for the argument of that one. -/
def Store.callTwice (store : Store) (scope : ScopeId) (a b : String) (v w : Value) : Store :=
  let called := store.call scope a v
  Store.call { called with closures := called.closures + 1 } store.scopes.size b w

/-- The correspondence of a store with itself, the second of two new scopes standing for one. -/
def Store.stacked (store : Store) : Correspondence where
  scopes := fun id id' =>
    store.identity.scopes id id' ∨ (id = store.scopes.size + 1 ∧ id' = store.scopes.size)
  closures := store.identity.closures

namespace Store

variable {store : Store} {scope : ScopeId} {a b : String} {v w : Value}

theorem size_call (store : Store) (scope : ScopeId) (name : String) (value : Value) :
    (store.call scope name value).scopes.size = store.scopes.size + 1 :=
  size_create _ _ _

theorem frozen_callTwice : store.Frozen (store.callTwice scope a b v w) :=
  trans_of Frozen (store.frozen_create _ _)
    (trans_of Frozen (frozen_close _) (frozen_create _ _ _))

theorem le_stacked (store : Store) : store.identity.Le store.stacked :=
  ⟨fun _ _ hid => .inl hid, fun _ _ hid => hid⟩

/-- Two scopes, one inside the other, for one argument each bind together what one scope for both
    binds. -/
theorem mergedAt_callTwice (hscope : scope < store.scopes.size) (hv : v.Within store)
    (hw : w.Within store) :
    (store.callTwice scope a b v w).MergedAt .strict store.stacked (store.callBoth scope a b v w)
      (store.scopes.size + 1) store.scopes.size store.scopes.size := by
  have hle := store.le_stacked
  refine ⟨{ parent := some store.scopes.size, bindings := Table.ofPairs [(b, w)] },
    { parent := some scope, bindings := Table.ofPairs [(a, v)] },
    { parent := some scope, bindings := Table.ofPairs [(a, v), (b, w)] }, ?_, ?_, ?_, rfl,
    fun name => ?_, .some (Or.inl ⟨hscope, rfl⟩), Nat.lt_succ_self _, ?_, ?_⟩
  · rw [callTwice, call, scopes_create, if_pos (size_call store scope a v).symm]
  · rw [callTwice, call, scopes_create_of_lt]
    · exact (scopes_create _ _ _ _).trans (if_pos rfl)
    · exact Nat.lt_of_lt_of_eq (Nat.lt_succ_self _) (size_call store scope a v).symm
  · exact (scopes_create _ _ _ _).trans (if_pos rfl)
  · simp only [Table.get?_pair, Table.get?_single]
    refine rel_or ?_ ?_
    · split
      · exact .some (Value.Same.mono hle hw)
      · exact .none
    · split
      · exact .some (Value.Same.mono hle hv)
      · exact .none
  · rintro parent ⟨rfl⟩
    exact hscope
  · rintro parent ⟨rfl⟩
    exact hscope

/-- A store with a scope for each argument is the same as one with a scope for both, but for this
    scope. -/
theorem Sound.split (h : store.Sound) (hscope : scope < store.scopes.size)
    (hv : v.Within store) (hw : w.Within store) :
    (store.callTwice scope a b v w).Split (store.scopes.size + 1) store.scopes.size
      store.scopes.size .strict store.stacked (store.callBoth scope a b v w) where
  scopes := by
    rintro id id' (⟨hid, rfl⟩ | ⟨rfl, -⟩) hinner
    · exact SameAt.mono store.le_stacked
        (h.sameAt_of_frozen le_rfl frozen_callTwice (store.frozen_create _ _) hid)
    · exact absurd rfl hinner
  chain := mergedAt_callTwice hscope hv hw
  related := .inr ⟨rfl, rfl⟩
  hidden := by
    rintro id' (⟨hid, -⟩ | ⟨heq, -⟩)
    · exact Nat.lt_irrefl _ hid
    · exact Nat.ne_of_lt (Nat.lt_succ_self _) heq
  closures := by
    rintro id id' ⟨hid, rfl⟩
    exact ⟨Nat.lt_succ_of_lt hid, hid⟩
  scopesUnambiguous := by
    rintro x y x' y' (⟨hx, rfl⟩ | ⟨rfl, rfl⟩) (⟨hy, rfl⟩ | ⟨rfl, rfl⟩)
    · exact Iff.rfl
    · exact iff_of_false (Nat.ne_of_lt (Nat.lt_succ_of_lt hx)) (Nat.ne_of_lt hx)
    · exact iff_of_false (Nat.ne_of_gt (Nat.lt_succ_of_lt hy)) (Nat.ne_of_gt hy)
    · exact iff_of_true rfl rfl
  closuresUnambiguous := h.closuresUnambiguous
  printed := h.printed

/-- Two scopes and one make no difference to what has been found so far. -/
theorem Sound.inStep (h : store.Sound) (hscope : scope < store.scopes.size)
    (hv : v.Within store) (hw : w.Within store) :
    (store.callTwice scope a b v w).InStep
      (Store.Split (store.scopes.size + 1) store.scopes.size store.scopes.size .strict)
      store.scopes.size store.stacked (store.callBoth scope a b v w) where
  alike := h.split hscope hv hw
  homes := by
    have hbindings : ∀ (name : String) {value : Value}, value.Within store →
        Bindings.All (Value.HomesBelow store.scopes.size) (Table.ofPairs [(name, value)]) :=
      fun name value hvalue => Bindings.all_nil.set name hvalue.homesBelow
    have hcalled : (store.call scope a v).Holds (fun _ => True)
        (Value.HomesBelow store.scopes.size) :=
      h.homesBelow.create (fun _ _ => trivial) (hbindings a hv)
    exact Holds.create hcalled (fun _ _ => trivial) (hbindings b hw)
  size := frozen_callTwice.scopes
  old := by
    rintro home hhome home' (⟨-, heq⟩ | ⟨rfl, -⟩)
    · exact heq
    · exact absurd hhome (Nat.not_lt.2 (Nat.le_succ _))

end Store

/-! ### The two functions -/

section

variable {limits : Limits} {store : Store} {scope : ScopeId} {a b : String} {v w : Value}
  {body inside : Expr}

/-- Applying the function of one parameter and then its value evaluates the body in a scope for
    the second argument inside a scope for the first. -/
theorem Limits.apply_twice (hinside : inside.Makes [b] body) (hdepth : limits.depth ≠ 0) (id : Nat)
    (p q : Option Span) :
    Action.bind (limits.apply p (.closure id [a] inside scope) [v])
        (fun made => limits.apply q made [w]) store =
      limits.eval body (store.scopes.size + 1) (store.callTwice scope a b v w) := by
  obtain ⟨depth, rounds⟩ := limits
  obtain ⟨depth, rfl⟩ := Nat.exists_eq_add_one_of_ne_zero hdepth
  have hmade : Limits.apply ⟨depth + 1, rounds⟩ p (.closure id [a] inside scope) [v] store =
      Action.close [b] body store.scopes.size (store.call scope a v) := by
    simp only [Limits.apply, Limits.eval, Evaluator.apply, hinside.eval_succ]
    rfl
  calc
    _ = Limits.apply ⟨depth + 1, rounds⟩ q
          (.closure (store.call scope a v).closures [b] body store.scopes.size) [w]
          { store.call scope a v with closures := (store.call scope a v).closures + 1 } := by
      rw [Action.bind, hmade]
      rfl
    _ = Limits.eval ⟨depth + 1, rounds⟩ body (store.call scope a v).scopes.size
          (store.callTwice scope a b v w) := rfl
    _ = _ := by rw [Store.size_call]

/-- Applying the function of two parameters evaluates the body in a scope for both arguments. -/
theorem Limits.apply_both (limits : Limits) (id : Nat) (r : Option Span) :
    limits.apply r (.closure id [a, b] body scope) [v, w] store =
      limits.eval body store.scopes.size (store.callBoth scope a b v w) := rfl

/-- A function that takes its arguments one at a time does the same as the function of the same
    body that takes them both. -/
theorem Limits.apply_curried {curried joint : Expr} {f g : Value} {made made' : Limits}
    {before before' : Store} (hinside : inside.Makes [b] body) (hcurried : curried.Makes [a] inside)
    (hjoint : joint.Makes [a, b] body) (hf : (made.eval curried scope before).1 = .ok f)
    (hg : (made'.eval joint scope before').1 = .ok g) (hstore : store.Sound)
    (hwithin : g.Within store) (hv : v.Within store) (hw : w.Within store) (limits : Limits)
    (p q r : Option Span) :
    let left := Action.bind (limits.apply p f [v]) (fun h => limits.apply q h [w]) store
    let right := limits.apply r g [v, w] store
    left.2.printed = right.2.printed ∧ Result.Indistinct left.1 right.1 ∧
      ∀ x x', left.1 = .ok x → right.1 = .ok x' →
        ∀ known : List Value, (∀ value ∈ known, value.Within store) →
        ∀ applications : List Application,
          let seen := Application.observe applications (x :: known) left.2
          let seen' := Application.observe applications (x' :: known) right.2
          seen.2.printed = seen'.2.printed ∧ List.Forall₂ Result.Indistinct seen.1 seen'.1 := by
  intro left right
  obtain ⟨id, rfl⟩ := hcurried.eq_closure hf
  obtain ⟨id', rfl⟩ := hjoint.eq_closure hg
  obtain ⟨-, hbody, hscope⟩ := Value.within_closure.1 hwithin
  have hinstep := hstore.inStep (a := a) (b := b) hscope hv hw
  have hlike := Store.Split.likeness (store.scopes.size + 1) store.scopes.size store.scopes.size
    .strict
  have hright : right = limits.eval body store.scopes.size (store.callBoth scope a b v w) :=
    limits.apply_both id' r
  by_cases hdepth : limits.depth = 0
  · obtain ⟨depth, rounds⟩ := limits
    obtain rfl : depth = 0 := hdepth
    exact ⟨rfl, .error _, fun x x' hx => by cases hx⟩
  have hleft : left = limits.eval body (store.scopes.size + 1) (store.callTwice scope a b v w) :=
    Limits.apply_twice hinside hdepth id p q
  obtain ⟨w', hle, hafter, hresult, hvalue⟩ := hinstep.action
    (Evaluator.same_eval hlike limits.rounds limits.depth store.stacked _ _ _ _
      (Expr.Same.mono store.le_stacked hbody) (.inr ⟨rfl, rfl⟩))
    (Evaluator.meets_eval (Invariant.kept_homesBelow _) limits.rounds limits.depth _ _ _
      hbody.homesBelow trivial)
  rw [Limits.eval] at hleft hright
  rw [← hleft, ← hright] at hafter hresult
  rw [← hleft] at hvalue
  refine ⟨hafter.alike.printed_eq, hresult.indistinct hafter.old hvalue, ?_⟩
  intro x x' hx hx' known hknown applications
  rw [hx, hx'] at hresult
  cases hresult with
  | ok hsame =>
      have hall : Value.AllSame .strict w' (x :: known) (x' :: known) :=
        .cons hsame (.mono (store.le_stacked.trans hle) (.of_forall hknown))
      have hhomes : ∀ value ∈ x :: known, value.HomesBelow store.scopes.size :=
        List.forall_mem_cons.2 ⟨hvalue x hx, fun value hmem => (hknown value hmem).homesBelow⟩
      obtain ⟨⟨last, hlast⟩, hseen⟩ :=
        Application.observe_indistinct hlike applications hafter hall hhomes
      exact ⟨hlast.alike.printed_eq, hseen⟩

/-- Both parameters may have one name, even that of a form; the second argument hides the first. -/
theorem Limits.apply_curried_shadowed :
    let limits : Limits := ⟨2, 0⟩
    let make := fun operands => Expr.call (.name "fun" ⟨0, 3⟩) operands ⟨0, 9⟩
    let parameter : Expr := .name "if" ⟨4, 6⟩
    let body := make [.name "y" ⟨4, 5⟩, parameter]
    let inside := make [parameter, body]
    let first := limits.eval (make [parameter, inside]) Process.fresh.globals Process.fresh.store
    let second := limits.eval (make [parameter, parameter, body]) Process.fresh.globals first.2
    let f : Value := .closure 0 ["if"] inside Process.fresh.globals
    let g : Value := .closure 1 ["if", "if"] body Process.fresh.globals
    let left := Action.bind (limits.apply none f [.boolean true])
      (fun made => limits.apply none made [.boolean false]) second.2
    let right := limits.apply none g [.boolean true, .boolean false] second.2
    let x : Value := .closure 3 ["y"] parameter 2
    let x' : Value := .closure 2 ["y"] parameter 1
    let seen := Application.observe [⟨limits, none, 0, [1]⟩] [x, .boolean true] left.2
    let seen' := Application.observe [⟨limits, none, 0, [1]⟩] [x', .boolean true] right.2
    first.1 = .ok f ∧ second.1 = .ok g ∧ second.2.Sound ∧ g.Within second.2 ∧
      left.1 = .ok x ∧ right.1 = .ok x' ∧ seen.1 = [.ok (.boolean false)] ∧
      List.Forall₂ Result.Indistinct seen.1 seen'.1 := by
  intro limits make parameter body inside first second f g left right x x' seen seen'
  have hmake : ∀ operands, (∀ operand ∈ operands, operand.Plain) → (make operands).Plain :=
    fun operands h => .call _ (.name _ _) h
  have hparameter : parameter.Plain := .name _ _
  have hbody : body.Plain := hmake _ (by simp [Expr.Plain.name, hparameter])
  have hinside : inside.Plain := hmake _ (by simp [hparameter, hbody])
  have hfirst := (Process.sound_fresh.eval limits
    ((hmake [parameter, inside] (by simp [hparameter, hinside])).within _) Nat.zero_lt_one).1
  have hsecond := hfirst.eval limits
    ((hmake [parameter, parameter, body] (by simp [hparameter, hbody])).within _) Nat.zero_lt_one
  have hknown : ∀ value ∈ [Value.boolean true], value.Within second.2 := by
    intro value hmem
    rw [List.mem_singleton.1 hmem]
    exact .boolean true
  have hmakes : ∀ operands parameters expr, Evaluator.parameterNames operands = .ok parameters →
      (make (operands ++ [expr])).Makes parameters expr :=
    fun operands parameters expr hnames => .call expr _ rfl hnames
  have hcurried := Limits.apply_curried (hmakes [parameter] ["if"] body rfl)
    (hmakes [parameter] ["if"] inside rfl) (hmakes [parameter, parameter] ["if", "if"] body rfl)
    (show first.1 = .ok f from rfl) (show second.1 = .ok g from rfl) hsecond.1
    (hsecond.2 g rfl) (.boolean true) (.boolean false) limits none none none
  exact ⟨rfl, rfl, hsecond.1, hsecond.2 g rfl, rfl, rfl, rfl,
    (hcurried.2.2 x x' rfl rfl _ hknown [⟨limits, none, 0, [1]⟩]).2⟩

end

end CallLang
