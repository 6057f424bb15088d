/-
  CallLang/Proofs/Homes.lean
  ==========================
  **Where built-in functions belong.**

  No program makes a built-in function: those that occur in an evaluation are those that
  have been there before.  So where all of them belong to scopes below a bound, all of
  them do so ever after.

  Hence a value that contains no closure is told from others by itself alone.  Its
  numbers, texts and booleans are what they are, and its built-in functions belong to
  scopes that stand for themselves.
-/
import CallLang.Proofs.Invariants
import CallLang.Proofs.References

namespace CallLang

/-- Whether a value is a closure or contains one through arrays. -/
inductive Value.HasClosure : Value → Prop where
  | closure (id : Nat) (parameters : List String) (body : Expr) (scope : ScopeId) :
      Value.HasClosure (.closure id parameters body scope)
  | array {items : List Value} {item : Value} (hmem : item ∈ items) (h : item.HasClosure) :
      Value.HasClosure (.array items)

mutual

/-- Whether the built-in functions in a value, and in the bodies of its closures, belong to
    scopes below a bound. -/
inductive Value.HomesBelow (bound : ScopeId) : Value → Prop where
  | number (n : Number) : Value.HomesBelow bound (.number n)
  | string (text : String) : Value.HomesBelow bound (.string text)
  | boolean (b : Bool) : Value.HomesBelow bound (.boolean b)
  | array {items : List Value} (h : ∀ item ∈ items, Value.HomesBelow bound item) :
      Value.HomesBelow bound (.array items)
  | closure {id : Nat} {parameters : List String} {body : Expr} {scope : ScopeId}
      (h : Expr.HomesBelow bound body) :
      Value.HomesBelow bound (.closure id parameters body scope)
  | builtin (function : Builtin) {home : ScopeId} (h : home < bound) :
      Value.HomesBelow bound (.builtin function home)

/-- Whether the built-in functions in the literals of an expression belong to scopes below a
    bound. -/
inductive Expr.HomesBelow (bound : ScopeId) : Expr → Prop where
  | literal {value : Value} {span : Span} (h : Value.HomesBelow bound value) :
      Expr.HomesBelow bound (.literal value span)
  | name (text : String) (span : Span) : Expr.HomesBelow bound (.name text span)
  | call {operator : Expr} {arguments : List Expr} {span : Span}
      (hoperator : Expr.HomesBelow bound operator)
      (harguments : ∀ argument ∈ arguments, Expr.HomesBelow bound argument) :
      Expr.HomesBelow bound (.call operator arguments span)
  | hole : Expr.HomesBelow bound .hole

end

/-! ### What is the same as something -/

section

variable {c : Comparison} {w : Correspondence} {bound : ScopeId}

mutual

/-- Where all scopes that stand for others lie below a bound, the built-in functions in what is
    the same as something belong below it. -/
theorem Value.Same.homesBelow (hw : ∀ id id', w.scopes id id' → id < bound) {a a' : Value}
    (h : Value.Same c w a a') : a.HomesBelow bound :=
  match h with
  | .number n => .number n
  | .string text => .string text
  | .boolean b => .boolean b
  | .array hitems => .array (hitems.homesBelow hw)
  | .closure _ hbody _ => .closure (hbody.homesBelow hw)
  | .builtin function hhome => .builtin function (hw _ _ hhome)

theorem Value.AllSame.homesBelow (hw : ∀ id id', w.scopes id id' → id < bound)
    {as as' : List Value} (h : Value.AllSame c w as as') : ∀ a ∈ as, a.HomesBelow bound :=
  match h with
  | .nil => List.forall_mem_nil _
  | .cons ha has => List.forall_mem_cons.2 ⟨ha.homesBelow hw, has.homesBelow hw⟩

theorem Expr.Same.homesBelow (hw : ∀ id id', w.scopes id id' → id < bound) {e e' : Expr}
    (h : Expr.Same c w e e') : e.HomesBelow bound :=
  match h with
  | .literal hvalue _ => .literal (hvalue.homesBelow hw)
  | .name text _ => .name text _
  | .call hoperator harguments _ => .call (hoperator.homesBelow hw) (harguments.homesBelow hw)
  | .hole => .hole

theorem Expr.AllSame.homesBelow (hw : ∀ id id', w.scopes id id' → id < bound)
    {es es' : List Expr} (h : Expr.AllSame c w es es') : ∀ e ∈ es, e.HomesBelow bound :=
  match h with
  | .nil => List.forall_mem_nil _
  | .cons he hes => List.forall_mem_cons.2 ⟨he.homesBelow hw, hes.homesBelow hw⟩

end

mutual

/-- Values that are the same are equal, if they contain no closure and their built-in functions
    belong to scopes that stand for themselves alone. -/
theorem Value.Same.eq (hw : ∀ home < bound, ∀ home', w.scopes home home' → home' = home)
    {a a' : Value} (h : Value.Same c w a a') (ha : a.HomesBelow bound) (hclosure : ¬a.HasClosure) :
    a' = a :=
  match h, ha with
  | .number _, _ => rfl
  | .string _, _ => rfl
  | .boolean _, _ => rfl
  | .array hitems, .array hhomes =>
    congrArg Value.array (hitems.eq hw hhomes fun _ hmem hitem => hclosure (.array hmem hitem))
  | .closure _ _ _, _ => absurd (.closure _ _ _ _) hclosure
  | .builtin function hhome, .builtin _ hbelow =>
    congrArg (Value.builtin function) (hw _ hbelow _ hhome)

theorem Value.AllSame.eq (hw : ∀ home < bound, ∀ home', w.scopes home home' → home' = home)
    {as as' : List Value} (h : Value.AllSame c w as as') (has : ∀ a ∈ as, a.HomesBelow bound)
    (hclosure : ∀ a ∈ as, ¬a.HasClosure) : as' = as :=
  match h with
  | .nil => rfl
  | .cons ha hrest =>
    congrArg₂ List.cons
      (ha.eq hw (has _ List.mem_cons_self) (hclosure _ List.mem_cons_self))
      (hrest.eq hw (fun a hmem => has a (List.mem_cons_of_mem _ hmem))
        fun a hmem => hclosure a (List.mem_cons_of_mem _ hmem))

end

mutual

theorem Value.Same.hasClosure_iff {a a' : Value} (h : Value.Same c w a a') :
    a.HasClosure ↔ a'.HasClosure := by
  cases h with
  | closure _ _ _ => exact iff_of_true (.closure _ _ _ _) (.closure _ _ _ _)
  | @array items items' hitems =>
      have hiff := hitems.hasClosure_iff
      constructor
      · rintro (_ | ⟨hmem, hitem⟩)
        obtain ⟨item', hmem', hitem'⟩ := hiff.1 ⟨_, hmem, hitem⟩
        exact .array hmem' hitem'
      · rintro (_ | ⟨hmem, hitem⟩)
        obtain ⟨item, hmem, hitem⟩ := hiff.2 ⟨_, hmem, hitem⟩
        exact .array hmem hitem
  | _ => exact iff_of_false nofun nofun

theorem Value.AllSame.hasClosure_iff {as as' : List Value} (h : Value.AllSame c w as as') :
    (∃ a ∈ as, a.HasClosure) ↔ ∃ a' ∈ as', a'.HasClosure := by
  cases h with
  | nil => simp
  | cons ha has =>
      rw [List.exists_mem_cons_iff, List.exists_mem_cons_iff, ha.hasClosure_iff, has.hasClosure_iff]

end

end

/-! ### The invariant -/

/-- What occurs where all built-in functions belong to scopes below a bound. -/
def Invariant.homesBelow (bound : ScopeId) : Invariant where
  store := Store.Holds (fun _ => True) (Value.HomesBelow bound)
  scope := fun _ _ => True
  value := fun _ value => value.HomesBelow bound
  expr := Expr.HomesBelow bound
  stop := fun _ => True

theorem Invariant.kept_homesBelow (bound : ScopeId) : (Invariant.homesBelow bound).Kept where
  scope_grows := fun _ _ => trivial
  value_grows := fun _ h => h
  literal := by
    intro store value span h
    cases h with
    | literal h => exact h
  operator := by
    intro operator arguments span h
    cases h with
    | call hoperator _ => exact hoperator
  operand := by
    intro operator arguments span h
    cases h with
    | call _ harguments => exact harguments
  number := .number
  boolean := .boolean
  join := fun _ _ => .string _
  array := by
    intro store items
    constructor
    · intro h
      cases h with
      | array h => exact h
    · exact .array
  closure := by
    intro store id parameters body scope h
    cases h with
    | closure h => exact ⟨h, trivial⟩
  lookup := fun h _ hfound => h.find? trivial hfound
  create := fun parameters h _ harguments =>
    ⟨h.create (fun _ _ => trivial) (Bindings.all_ofPairs parameters harguments), trivial⟩
  define := fun name h _ hvalue => h.define _ name hvalue
  print := fun h _ _ => h
  close := fun h _ hbody _ => ⟨h, .closure hbody⟩
  unbound := fun _ => trivial
  misused := fun _ _ _ => trivial
  parameters := fun _ _ _ => trivial
  applied := fun _ _ _ _ => trivial
  hole := fun _ => trivial
  tooDeep := trivial
  unfinished := trivial
  beyondDoubles := trivial
  longInteger := trivial

section

variable {store : Store}

theorem Store.lt_of_identity {id id' : ScopeId} (h : store.identity.scopes id id') :
    id < store.scopes.size := h.1

/-- What refers to scopes of a store has no other built-in functions than theirs. -/
theorem Value.Within.homesBelow {value : Value} (h : value.Within store) :
    value.HomesBelow store.scopes.size :=
  Value.Same.homesBelow (fun _ _ => Store.lt_of_identity) h

theorem Expr.Within.homesBelow {expr : Expr} (h : expr.Within store) :
    expr.HomesBelow store.scopes.size :=
  Expr.Same.homesBelow (fun _ _ => Store.lt_of_identity) h

/-- In a sound store all built-in functions belong to scopes that exist. -/
theorem Store.Sound.homesBelow (h : store.Sound) :
    store.Holds (fun _ => True) (Value.HomesBelow store.scopes.size) := by
  intro id scope _ hscope
  exact ⟨fun _ _ => trivial, fun name value hbound => (h.within hscope hbound).homesBelow⟩

end

end CallLang
