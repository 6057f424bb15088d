/-
  CallLang/Proofs/Splitting.lean
  ==============================
  **One scope for two.**

  A scope and the scope around it can be merged into one, which binds a name to what it has
  in the inner of the two.  This makes no difference for evaluation in the inner scope or in
  any scope inside it, as long as the outer one is not used otherwise: a name has the same
  value, and a definition in the inner scope hides what the outer one binds, just as it
  replaces it in the merged scope.

  So evaluation respects the correspondence of two stores one of which has two scopes where
  the other has one.
-/
import CallLang.Proofs.Simulation

namespace CallLang

/-- Whether two scopes of one store, one inside the other, bind together what one scope of another
    store binds, and the scopes around them stand for each other. -/
def Store.MergedAt (c : Comparison) (w : Correspondence) (store store' : Store)
    (inner outer merged : ScopeId) : Prop :=
  ∃ own around whole, store.scopes[inner]? = some own ∧ store.scopes[outer]? = some around ∧
    store'.scopes[merged]? = some whole ∧ own.parent = some outer ∧
    (∀ name, Option.Rel (Value.Same c w)
      ((own.bindings.get? name).or (around.bindings.get? name)) (whole.bindings.get? name)) ∧
    Option.Rel w.scopes around.parent whole.parent ∧ outer < inner ∧
    (∀ parent ∈ around.parent, parent < outer) ∧ ∀ parent ∈ whole.parent, parent < merged

/-- Whether two stores are the same but for a scope of the second that is split into two in the
    first.  The inner of these stands for it, and the outer stands for nothing. -/
structure Store.Split (inner outer merged : ScopeId) (c : Comparison) (w : Correspondence)
    (store store' : Store) : Prop where
  scopes : ∀ id id', w.scopes id id' → id ≠ inner → store.SameAt c w store' id id'
  chain : store.MergedAt c w store' inner outer merged
  related : w.scopes inner merged
  hidden : ∀ id', ¬w.scopes outer id'
  closures : ∀ id id', w.closures id id' → id < store.closures ∧ id' < store'.closures
  scopesUnambiguous : Unambiguous w.scopes
  closuresUnambiguous : Unambiguous w.closures
  printed : ∃ since, store.printed = c.told ++ since ∧ store'.printed = c.told' ++ since

variable {c : Comparison} {w w' : Correspondence} {store store' : Store}
  {inner outer merged : ScopeId}

/-! ### The two scopes and the one -/

namespace Store.MergedAt

theorem mono (hle : w.Le w') (h : store.MergedAt c w store' inner outer merged) :
    store.MergedAt c w' store' inner outer merged := by
  obtain ⟨own, around, whole, hown, haround, hwhole, hparent, hbindings, hparents, horder⟩ := h
  refine ⟨own, around, whole, hown, haround, hwhole, hparent, fun name => ?_,
    hle.parent hparents, horder⟩
  have hvalue := hbindings name
  generalize (own.bindings.get? name).or (around.bindings.get? name) = found,
    whole.bindings.get? name = found' at hvalue ⊢
  cases hvalue with
  | none => exact .none
  | some hvalue => exact .some (hvalue.mono hle)

theorem lt (h : store.MergedAt c w store' inner outer merged) :
    inner < store.scopes.size ∧ outer < store.scopes.size ∧ merged < store'.scopes.size := by
  obtain ⟨own, around, whole, hown, haround, hwhole, -⟩ := h
  obtain ⟨hinner, -⟩ := Array.getElem?_eq_some_iff.1 hown
  obtain ⟨houter, -⟩ := Array.getElem?_eq_some_iff.1 haround
  obtain ⟨hmerged, -⟩ := Array.getElem?_eq_some_iff.1 hwhole
  exact ⟨hinner, houter, hmerged⟩

/-- Where neither of the scopes has changed, they go together as before. -/
theorem of_scopes_eq (h : store.MergedAt c w store' inner outer merged) {after after' : Store}
    (hinner : after.scopes[inner]? = store.scopes[inner]?)
    (houter : after.scopes[outer]? = store.scopes[outer]?)
    (hmerged : after'.scopes[merged]? = store'.scopes[merged]?) :
    after.MergedAt c w after' inner outer merged := by
  obtain ⟨own, around, whole, hown, haround, hwhole, hrest⟩ := h
  exact ⟨own, around, whole, hinner.trans hown, houter.trans haround, hmerged.trans hwhole, hrest⟩

/-- A definition in the inner scope does the same as one in the merged scope. -/
theorem define_self (h : store.MergedAt c w store' inner outer merged) (name : String)
    {value value' : Value} (hvalue : Value.Same c w value value') :
    (store.define inner name value).MergedAt c w (store'.define merged name value')
      inner outer merged := by
  obtain ⟨own, around, whole, hown, haround, hwhole, hparent, hbindings, hparents, horder, hlt⟩ := h
  refine ⟨{ own with bindings := own.bindings.set name value }, around,
    { whole with bindings := whole.bindings.set name value' }, ?_, ?_, ?_, hparent,
    fun other => ?_, hparents, horder, hlt⟩
  · rw [scopes_define_self, hown, Option.map_some]
  · rw [scopes_define_of_ne _ _ _ _ (Nat.ne_of_lt horder), haround]
  · rw [scopes_define_self, hwhole, Option.map_some]
  · rw [Table.get?_set, Table.get?_set]
    by_cases hother : other = name
    · rw [if_pos hother, if_pos hother]
      exact .some hvalue
    · rw [if_neg hother, if_neg hother]
      exact hbindings other

theorem find? (h : store.MergedAt c w store' inner outer merged) {name : String}
    {reach reach' : Nat} (hreach : inner < reach) (hreach' : merged < reach')
    (ih : ∀ id < inner, ∀ id', w.scopes id id' → ∀ {reach reach'}, id < reach → id' < reach' →
      Option.Rel (Value.Same c w) (store.find? name reach id) (store'.find? name reach' id')) :
    Option.Rel (Value.Same c w) (store.find? name reach inner)
      (store'.find? name reach' merged) := by
  obtain ⟨own, around, whole, hown, haround, hwhole, hparent, hbindings, hparents, horder,
    hbefore, hbefore'⟩ := h
  -- the search goes through two scopes on one side and through one on the other
  obtain ⟨reach, rfl⟩ : ∃ n, reach = n + 2 :=
    Nat.exists_eq_add_of_le' (Nat.lt_of_le_of_lt (Nat.zero_lt_of_lt horder) hreach)
  obtain ⟨reach', rfl⟩ := Nat.exists_eq_add_one.2 (Nat.zero_lt_of_lt hreach')
  rw [find?_of_scope hown, hparent, Option.bind_some, find?_of_scope haround,
    ← Option.or_assoc, find?_of_scope hwhole]
  have hreach_outer : outer ≤ reach :=
    Nat.le_of_lt_succ (Nat.lt_of_lt_of_le horder (Nat.le_of_lt_succ hreach))
  exact rel_or (hbindings name) (rel_find?_parent hreach_outer (Nat.le_of_lt_succ hreach') hparents
    hbefore hbefore' fun id hid => ih id (Nat.lt_trans hid horder))

end Store.MergedAt

/-! ### The rest of the stores -/

namespace Store.Split

theorem eq_merged (h : store.Split inner outer merged c w store') {id' : ScopeId}
    (hid : w.scopes inner id') : id' = merged :=
  (h.scopesUnambiguous inner inner id' merged hid h.related).1 rfl

theorem lt (h : store.Split inner outer merged c w store') {id id' : ScopeId}
    (hid : w.scopes id id') : id < store.scopes.size ∧ id' < store'.scopes.size := by
  by_cases hinner : id = inner
  · obtain rfl := hinner
    obtain rfl := h.eq_merged hid
    exact ⟨h.chain.lt.1, h.chain.lt.2.2⟩
  · exact (h.scopes id id' hid hinner).lt

theorem lookup? (h : store.Split inner outer merged c w store') {id id' : ScopeId}
    (hid : w.scopes id id') (name : String) :
    Option.Rel (Value.Same c w) (store.lookup? id name) (store'.lookup? id' name) := by
  have hfind : ∀ {reach reach'}, id < reach → id' < reach' →
      Option.Rel (Value.Same c w) (store.find? name reach id) (store'.find? name reach' id') := by
    induction id using Nat.strongRecOn generalizing id' with
    | ind id ih =>
        intro reach reach' hreach hreach'
        by_cases hinner : id = inner
        · obtain rfl := hinner
          obtain rfl := h.eq_merged hid
          exact h.chain.find? hreach hreach' fun outer hbefore outer' houter =>
            ih outer hbefore houter
        · exact (h.scopes id id' hid hinner).find? hreach hreach' fun outer hbefore outer' houter =>
            ih outer hbefore houter
  exact hfind (h.lt hid).1 (h.lt hid).2

theorem create (h : store.Split inner outer merged c w store') {parent parent' : ScopeId}
    (hparent : w.scopes parent parent') {bindings bindings' : Bindings}
    (hbindings : Bindings.Same c w bindings bindings') :
    (store.create (some parent) bindings).2.Split inner outer merged c
      (w.addScope store.scopes.size store'.scopes.size)
      (store'.create (some parent') bindings').2 where
  scopes := by
    rintro id id' (hid | ⟨rfl, rfl⟩) hinner
    · exact (h.scopes id id' hid hinner).create_of_old _ _ _ _
    · exact .create_of_new (.some hparent) (fun _ _ => h.lt) hbindings
  chain := by
    have hlt := h.chain.lt
    refine MergedAt.mono (w.le_addScope _ _) (h.chain.of_scopes_eq ?_ ?_ ?_)
    · exact scopes_create_of_lt store _ _ hlt.1
    · exact scopes_create_of_lt store _ _ hlt.2.1
    · exact scopes_create_of_lt store' _ _ hlt.2.2
  related := .inl h.related
  hidden := by
    rintro id' (hid | ⟨heq, -⟩)
    · exact h.hidden id' hid
    · exact Nat.ne_of_lt h.chain.lt.2.1 heq
  closures := h.closures
  scopesUnambiguous := h.scopesUnambiguous.insert fun _ _ hid => h.lt hid
  closuresUnambiguous := h.closuresUnambiguous
  printed := h.printed

theorem define (h : store.Split inner outer merged c w store') {id id' : ScopeId}
    (hid : w.scopes id id') (name : String) {value value' : Value}
    (hvalue : Value.Same c w value value') :
    (store.define id name value).Split inner outer merged c w (store'.define id' name value') where
  scopes := by
    intro other other' hother hinner
    have hsame := h.scopes other other' hother hinner
    have hiff := h.scopesUnambiguous other id other' id' hother hid
    by_cases heq : other = id
    · obtain rfl := heq
      obtain rfl := hiff.1 rfl
      exact hsame.define_self name hvalue
    · exact hsame.define_of_ne heq (mt hiff.2 heq) name value value'
  chain := by
    have hiff := h.scopesUnambiguous inner id merged id' h.related hid
    have houter : outer ≠ id := by
      rintro rfl
      exact h.hidden id' hid
    by_cases heq : inner = id
    · obtain rfl := heq
      obtain rfl := hiff.1 rfl
      exact h.chain.define_self name hvalue
    · refine h.chain.of_scopes_eq ?_ ?_ ?_
      · exact scopes_define_of_ne store id name value heq
      · exact scopes_define_of_ne store id name value houter
      · exact scopes_define_of_ne store' id' name value' (mt hiff.2 heq)
  related := h.related
  hidden := h.hidden
  closures := h.closures
  scopesUnambiguous := h.scopesUnambiguous
  closuresUnambiguous := h.closuresUnambiguous
  printed := h.printed

theorem print (h : store.Split inner outer merged c w store') (text : String) :
    (store.print text).Split inner outer merged c w (store'.print text) where
  scopes := h.scopes
  chain := h.chain
  related := h.related
  hidden := h.hidden
  closures := h.closures
  scopesUnambiguous := h.scopesUnambiguous
  closuresUnambiguous := h.closuresUnambiguous
  printed := printed_print h.printed text

theorem close (h : store.Split inner outer merged c w store') :
    Store.Split inner outer merged c (w.addClosure store.closures store'.closures)
      { store with closures := store.closures + 1 }
      { store' with closures := store'.closures + 1 } where
  scopes := by
    intro id id' hid hinner
    exact SameAt.mono (w.le_addClosure _ _) (h.scopes id id' hid hinner)
  chain := MergedAt.mono (w.le_addClosure _ _) h.chain
  related := h.related
  hidden := h.hidden
  closures := closures_close h.closures
  scopesUnambiguous := h.scopesUnambiguous
  closuresUnambiguous := h.closuresUnambiguous.insert h.closures
  printed := h.printed

/-- Where runs of one text are compared, both have printed the same. -/
theorem printed_eq (h : store.Split inner outer merged .strict w store') :
    store.printed = store'.printed := by
  obtain ⟨since, hprinted, hprinted'⟩ := h.printed
  exact hprinted.trans hprinted'.symm

/-- The smallest actions keep stores the same where one has two scopes for one of the other. -/
theorem likeness (inner outer merged : ScopeId) (c : Comparison) :
    Likeness c (Store.Split inner outer merged c) where
  scopesUnambiguous := fun h => h.scopesUnambiguous
  closuresUnambiguous := fun h => h.closuresUnambiguous
  lookup := fun h hid name => h.lookup? hid name
  create := fun h hparent hbindings => h.create hparent hbindings
  define := fun h hid hvalue name => h.define hid name hvalue
  print := fun h text => h.print text
  close := fun h => h.close

end Store.Split

end CallLang
