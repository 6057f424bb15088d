/-
  CallLang/Proofs/Scopes.lean
  ===========================
  **Tables and stores.**

  What writing to a table or a store does to every later question about it: which
  entry a name has, which scope a number has, and what all values in it have in
  common.
-/
import CallLang.Store.Basic

namespace CallLang

/-! ### Tables -/

namespace Table

variable {α : Type}

@[simp] theorem get?_nil (name : String) : get? ([] : Table α) name = none := rfl

theorem get?_cons (other : String) (entry : α) (table : Table α) (name : String) :
    get? ((other, entry) :: table) name =
      if name = other then some entry else table.get? name := by
  by_cases h : name = other
  · simp [get?, h]
  · have hbeq : (name == other) = false := by simpa using h
    simp [get?, List.lookup_cons, h, hbeq]

theorem get?_set (table : Table α) (name : String) (entry : α) (other : String) :
    (table.set name entry).get? other = if other = name then some entry else table.get? other := by
  induction table with
  | nil => simp [set, get?_cons]
  | cons first table ih =>
      obtain ⟨key, old⟩ := first
      by_cases hkey : key = name
      · subst hkey
        by_cases hother : other = key <;> simp [set, get?_cons, hother]
      · by_cases hother : other = key
        · subst hother
          simp [set, get?_cons, hkey]
        · simp [set, get?_cons, hkey, hother, ih]

end Table

/-! ### Stores -/

namespace Store

variable (store : Store)

@[simp] theorem create_fst (parent : Option ScopeId) (bindings : Bindings) :
    (store.create parent bindings).1 = store.scopes.size := rfl

@[simp] theorem create_closures (parent : Option ScopeId) (bindings : Bindings) :
    (store.create parent bindings).2.closures = store.closures := rfl

@[simp] theorem create_printed (parent : Option ScopeId) (bindings : Bindings) :
    (store.create parent bindings).2.printed = store.printed := rfl

@[simp] theorem size_create (parent : Option ScopeId) (bindings : Bindings) :
    (store.create parent bindings).2.scopes.size = store.scopes.size + 1 := by
  simp [create]

theorem scopes_create (parent : Option ScopeId) (bindings : Bindings) (id : ScopeId) :
    (store.create parent bindings).2.scopes[id]? =
      if id = store.scopes.size then some { parent, bindings } else store.scopes[id]? := by
  simp [create, Array.getElem?_push]

theorem scopes_create_of_lt (parent : Option ScopeId) (bindings : Bindings) {id : ScopeId}
    (h : id < store.scopes.size) :
    (store.create parent bindings).2.scopes[id]? = store.scopes[id]? := by
  rw [scopes_create, if_neg (Nat.ne_of_lt h)]

variable (id : ScopeId) (name : String) (value : Value)

@[simp] theorem define_closures : (store.define id name value).closures = store.closures := rfl

@[simp] theorem define_printed : (store.define id name value).printed = store.printed := rfl

@[simp] theorem size_define : (store.define id name value).scopes.size = store.scopes.size := by
  simp [define]

theorem scopes_define_self :
    (store.define id name value).scopes[id]? =
      (store.scopes[id]?).map fun scope =>
        { scope with bindings := scope.bindings.set name value } := by
  simp [define, Array.getElem?_modify]

theorem scopes_define_of_ne {other : ScopeId} (h : other ≠ id) :
    (store.define id name value).scopes[other]? = store.scopes[other]? := by
  simp [define, Array.getElem?_modify, Ne.symm h]

@[simp] theorem print_scopes (text : String) : (store.print text).scopes = store.scopes := rfl

@[simp] theorem print_closures (text : String) : (store.print text).closures = store.closures :=
  rfl

@[simp] theorem print_printed (text : String) :
    (store.print text).printed = store.printed.push text := rfl

end Store

/-! ### What all values have in common -/

variable {p : Value → Prop}

/-- Whether all values that are bound have a property. -/
def Bindings.All (p : Value → Prop) (bindings : Bindings) : Prop :=
  ∀ name value, bindings.get? name = some value → p value

namespace Bindings

theorem all_nil : Bindings.All p [] := by
  intro name value h
  cases h

theorem All.cons {bindings : Bindings} (h : bindings.All p) (name : String) {value : Value}
    (hvalue : p value) : Bindings.All p ((name, value) :: bindings) := by
  intro other found hfound
  rw [Table.get?_cons] at hfound
  split at hfound
  · exact Option.some.inj hfound ▸ hvalue
  · exact h other found hfound

theorem All.set {bindings : Bindings} (h : bindings.All p) (name : String) {value : Value}
    (hvalue : p value) : Bindings.All p (bindings.set name value) := by
  intro other found hfound
  rw [Table.get?_set] at hfound
  split at hfound
  · exact Option.some.inj hfound ▸ hvalue
  · exact h other found hfound

theorem all_ofPairs (parameters : List String) {arguments : List Value}
    (h : ∀ argument ∈ arguments, p argument) :
    Bindings.All p (Table.ofPairs (parameters.zip arguments)) := by
  have hpairs : ∀ pair ∈ parameters.zip arguments, p pair.2 :=
    fun pair hmem => h pair.2 (List.of_mem_zip hmem).2
  unfold Table.ofPairs
  generalize parameters.zip arguments = pairs at hpairs
  have hnil : Bindings.All p [] := all_nil
  generalize ([] : Bindings) = bindings at hnil ⊢
  induction pairs generalizing bindings with
  | nil => exact hnil
  | cons pair pairs ih =>
      refine ih (fun other hmem => hpairs other (by simp [hmem])) _ ?_
      exact hnil.set pair.1 (hpairs pair (by simp))

theorem all_globals (hboolean : ∀ b, p (.boolean b)) (home : ScopeId)
    (hbuiltin : ∀ function, p (.builtin function home)) :
    Bindings.All p (Store.globalBindings home) := by
  have hbuiltins : ∀ functions : List Builtin, Bindings.All p
      (functions.map fun function => (function.name, .builtin function home)) := by
    intro functions
    induction functions with
    | nil => exact all_nil
    | cons function functions ih => exact All.cons ih function.name (hbuiltin function)
  exact ((hbuiltins Builtin.all).cons "false" (hboolean false)).cons "true" (hboolean true)

end Bindings

namespace Store

/-- Whether in scopes of a kind all values have a property, and the scopes around them are of
    that kind as well. -/
def Holds (home : ScopeId → Prop) (p : Value → Prop) (store : Store) : Prop :=
  ∀ (id : ScopeId) (scope : Scope), home id → store.scopes[id]? = some scope →
    (∀ parent, scope.parent = some parent → home parent) ∧ scope.bindings.All p

variable {store : Store} {home : ScopeId → Prop}

theorem Holds.create (h : store.Holds home p) {parent : Option ScopeId}
    (hparent : ∀ id, parent = some id → home id) {bindings : Bindings}
    (hbindings : bindings.All p) : (store.create parent bindings).2.Holds home p := by
  intro id scope hid hscope
  rw [scopes_create] at hscope
  split at hscope
  · obtain rfl := Option.some.inj hscope
    exact ⟨hparent, hbindings⟩
  · exact h id scope hid hscope

theorem Holds.define (h : store.Holds home p) (id : ScopeId) (name : String) {value : Value}
    (hvalue : p value) : (store.define id name value).Holds home p := by
  intro other scope hhome hscope
  by_cases hother : other = id
  · subst hother
    rw [scopes_define_self] at hscope
    obtain ⟨old, hold, rfl⟩ := Option.map_eq_some_iff.1 hscope
    obtain ⟨hparent, hbindings⟩ := h other old hhome hold
    exact ⟨hparent, hbindings.set name hvalue⟩
  · rw [scopes_define_of_ne _ _ _ _ hother] at hscope
    exact h other scope hhome hscope

/-- A global scope holds booleans and its built-in functions.  A property that they have holds
    there, and in scopes that are not there yet. -/
theorem holds_of_globals {globals : ScopeId}
    (hglobals : store.scopes[globals]? =
      some { parent := none, bindings := globalBindings globals })
    (hhome : ∀ id, home id → id = globals ∨ store.scopes.size ≤ id)
    (hboolean : ∀ b, p (.boolean b)) (hbuiltin : ∀ function, p (.builtin function globals)) :
    store.Holds home p := by
  intro id scope hid hscope
  rcases hhome id hid with rfl | hnew
  · obtain rfl := Option.some.inj (hglobals.symm.trans hscope)
    exact ⟨nofun, Bindings.all_globals hboolean _ hbuiltin⟩
  · obtain ⟨hlt, -⟩ := Array.getElem?_eq_some_iff.1 hscope
    exact absurd hlt (Nat.not_lt.2 hnew)

/-- What is found from a scope of the kind has the property. -/
theorem Holds.find? (h : store.Holds home p) {name : String} {reach : Nat} {id : ScopeId}
    (hid : home id) {value : Value} (hfound : store.find? name reach id = some value) :
    p value := by
  induction reach generalizing id with
  | zero => cases hfound
  | succ reach ih =>
      simp only [Store.find?] at hfound
      split at hfound
      · cases hfound
      · next scope hscope =>
          obtain ⟨hparents, hbindings⟩ := h id scope hid hscope
          split at hfound
          · next found hbound => exact Option.some.inj hfound ▸ hbindings name found hbound
          · split at hfound
            · next parent hparent => exact ih (hparents parent hparent) hfound
            · cases hfound

end Store

end CallLang
