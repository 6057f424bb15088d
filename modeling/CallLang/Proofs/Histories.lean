/-
  CallLang/Proofs/Histories.lean
  ==============================
  **What a lookup finds.**

  Scopes are created inside of others, and names are defined in them, in any order.  Which
  value a name has in a scope then can be told from this history alone: it is the one that
  was given last, in the nearest scope around it that was ever given one.

  The store agrees with the history in every scope (`Store.Records`).  So a definition
  changes what is found from a scope just if it comes first on the way up from there.
-/
import CallLang.Proofs.Scopes
import CallLang.Store.Action
import Mathlib.Data.List.Basic

namespace CallLang

/-! ### Histories -/

/-- What can be done to scopes.  A child is a scope that is created without bindings. -/
inductive Change where
  | create (parent : Option ScopeId) (bindings : Bindings)
  | define (id : ScopeId) (name : String) (value : Value)

/-- Changes of an empty store, the latest first. -/
abbrev History := List Change

/-- The store that a history leaves. -/
def Store.ofHistory : History → Store
  | [] => .empty
  | .create parent bindings :: earlier => ((Store.ofHistory earlier).create parent bindings).2
  | .define id name value :: earlier => (Store.ofHistory earlier).define id name value

namespace History

/-- How many scopes are created. -/
def creations : History → Nat
  | [] => 0
  | .create _ _ :: earlier => creations earlier + 1
  | .define _ _ _ :: earlier => creations earlier

/-- Whether all changes concern scopes that exist by then. -/
inductive Proper : History → Prop where
  | nil : Proper []
  | create {earlier : History} {parent : Option ScopeId} {bindings : Bindings} (h : Proper earlier)
      (hparent : ∀ id, parent = some id → id < creations earlier) :
      Proper (.create parent bindings :: earlier)
  | define {earlier : History} {id : ScopeId} {name : String} {value : Value} (h : Proper earlier)
      (hid : id < creations earlier) : Proper (.define id name value :: earlier)

/-- Whether a change that comes after others gives a name a value in a scope. -/
inductive Gives (earlier : History) : Change → ScopeId → String → Value → Prop where
  | initial {parent : Option ScopeId} {bindings : Bindings} {name : String} {value : Value}
      (h : bindings.get? name = some value) :
      Gives earlier (.create parent bindings) (creations earlier) name value
  | define {id : ScopeId} {name : String} {value : Value} :
      Gives earlier (.define id name value) id name value

/-- Whether a value is the last that was given to a name in a scope. -/
inductive LastGiven : History → ScopeId → String → Value → Prop where
  | now {earlier : History} {change : Change} {id : ScopeId} {name : String} {value : Value}
      (h : Gives earlier change id name value) : LastGiven (change :: earlier) id name value
  | before {earlier : History} {change : Change} {id : ScopeId} {name : String} {value : Value}
      (h : LastGiven earlier id name value)
      (hchange : ∀ other, ¬Gives earlier change id name other) :
      LastGiven (change :: earlier) id name value

/-- Whether a name was ever given a value in a scope. -/
def EverGiven (history : History) (id : ScopeId) (name : String) : Prop :=
  ∃ change earlier value, change :: earlier <:+ history ∧ Gives earlier change id name value

/-- Whether a scope was created inside another one, or inside of none. -/
def Created (history : History) (id : ScopeId) (parent : Option ScopeId) : Prop :=
  ∃ bindings earlier, .create parent bindings :: earlier <:+ history ∧ id = creations earlier

/-- The scopes from one on upwards, each followed by the one that it was created in. -/
inductive Chain (history : History) : ScopeId → List ScopeId → Prop where
  | top {id : ScopeId} (h : history.Created id none) : Chain history id [id]
  | inside {id parent : ScopeId} {rest : List ScopeId} (h : history.Created id (some parent))
      (hrest : Chain history parent rest) : Chain history id (id :: rest)

variable {history earlier : History} {id : ScopeId} {name : String} {value : Value}

/-! ### What was given -/

theorem everGiven_cons {change : Change} :
    EverGiven (change :: earlier) id name ↔
      (∃ value, Gives earlier change id name value) ∨ EverGiven earlier id name := by
  constructor
  · rintro ⟨other, rest, value, hsuffix, hgives⟩
    rcases List.suffix_cons_iff.1 hsuffix with heq | hsuffix
    · cases heq
      exact .inl ⟨value, hgives⟩
    · exact .inr ⟨other, rest, value, hsuffix, hgives⟩
  · rintro (⟨value, hgives⟩ | ⟨other, rest, value, hsuffix, hgives⟩)
    · exact ⟨change, earlier, value, List.suffix_refl _, hgives⟩
    · exact ⟨other, rest, value, hsuffix.trans (List.suffix_cons _ _), hgives⟩

/-- What was ever given was given last at some time. -/
theorem everGiven_iff : EverGiven history id name ↔ ∃ value, LastGiven history id name value := by
  induction history with
  | nil =>
      constructor
      · rintro ⟨change, earlier, value, hsuffix, -⟩
        cases List.suffix_nil.1 hsuffix
      · rintro ⟨value, h⟩
        cases h
  | cons change earlier ih =>
      rw [everGiven_cons, ih]
      constructor
      · rintro (⟨value, hgives⟩ | ⟨value, hlast⟩)
        · exact ⟨value, .now hgives⟩
        · by_cases hgives : ∃ other, Gives earlier change id name other
          · exact ⟨hgives.choose, .now hgives.choose_spec⟩
          · exact ⟨value, .before hlast fun other hother => hgives ⟨other, hother⟩⟩
      · rintro ⟨value, h⟩
        cases h with
        | now hgives => exact .inl ⟨value, hgives⟩
        | before hlast _ => exact .inr ⟨value, hlast⟩

theorem lastGiven_cons_of_not_gives {change : Change}
    (h : ∀ other, ¬Gives earlier change id name other) :
    LastGiven (change :: earlier) id name value ↔ LastGiven earlier id name value := by
  constructor
  · rintro (⟨hgives⟩ | ⟨hlast, -⟩)
    · exact absurd hgives (h value)
    · exact hlast
  · exact fun hlast => .before hlast h

theorem created_cons {change : Change} {parent : Option ScopeId} :
    Created (change :: earlier) id parent ↔
      (∃ bindings, change = .create parent bindings ∧ id = creations earlier) ∨
        Created earlier id parent := by
  constructor
  · rintro ⟨bindings, rest, hsuffix, hid⟩
    rcases List.suffix_cons_iff.1 hsuffix with heq | hsuffix
    · cases heq
      exact .inl ⟨bindings, rfl, hid⟩
    · exact .inr ⟨bindings, rest, hsuffix, hid⟩
  · rintro (⟨bindings, rfl, hid⟩ | ⟨bindings, rest, hsuffix, hid⟩)
    · exact ⟨bindings, earlier, List.suffix_refl _, hid⟩
    · exact ⟨bindings, rest, hsuffix.trans (List.suffix_cons _ _), hid⟩

end History

/-! ### The store that a history leaves -/

namespace Store

/-- The value that a scope itself binds a name to. -/
def binding? (store : Store) (id : ScopeId) (name : String) : Option Value :=
  (store.scopes[id]?).bind fun scope => scope.bindings.get? name

variable {store : Store} {id : ScopeId} {name : String} {value : Value}

theorem binding?_create (store : Store) (parent : Option ScopeId) (bindings : Bindings)
    (id : ScopeId) (name : String) :
    (store.create parent bindings).2.binding? id name =
      if id = store.scopes.size then bindings.get? name else store.binding? id name := by
  unfold binding?
  rw [scopes_create]
  split <;> rfl

theorem binding?_define (h : id < store.scopes.size) (name : String) (value : Value)
    (other : ScopeId) (name' : String) :
    (store.define id name value).binding? other name' =
      if other = id ∧ name' = name then some value else store.binding? other name' := by
  unfold binding?
  by_cases hother : other = id
  · subst hother
    rw [scopes_define_self, Array.getElem?_eq_getElem h]
    by_cases hname : name' = name <;> simp [Table.get?_set, hname]
  · rw [scopes_define_of_ne _ _ _ _ hother, if_neg fun heq => hother heq.1]

theorem binding?_of_size_le (h : store.scopes.size ≤ id) : store.binding? id name = none := by
  rw [binding?, Array.getElem?_eq_none h]
  rfl

theorem parent_define (store : Store) (id : ScopeId) (name : String) (value : Value)
    (other : ScopeId) :
    ((store.define id name value).scopes[other]?).map Scope.parent =
      (store.scopes[other]?).map Scope.parent := by
  by_cases hother : other = id
  · subst hother
    rw [scopes_define_self, Option.map_map]
    rfl
  · rw [scopes_define_of_ne _ _ _ _ hother]

/-- Whether a store has the scopes that a history has created, each with its parent, and each name
    bound to the value that was given last. -/
structure Records (store : Store) (history : History) : Prop where
  size : store.scopes.size = history.creations
  created : ∀ id parent, history.Created id parent ↔
    (store.scopes[id]?).map Scope.parent = some parent
  given : ∀ id name value, history.LastGiven id name value ↔ store.binding? id name = some value

open CallLang.History (Created Gives LastGiven created_cons lastGiven_cons_of_not_gives)

variable {history : History}

theorem records_empty : Store.empty.Records [] := by
  refine ⟨rfl, fun id parent => ⟨?_, nofun⟩, fun id name value => ⟨nofun, nofun⟩⟩
  rintro ⟨bindings, earlier, hsuffix, -⟩
  cases List.suffix_nil.1 hsuffix

theorem Records.create (h : store.Records history) (parent : Option ScopeId)
    (bindings : Bindings) :
    (store.create parent bindings).2.Records (.create parent bindings :: history) := by
  refine ⟨by rw [size_create, h.size]; rfl, fun id found => ?_, fun id name value => ?_⟩
  · rw [created_cons, h.created, scopes_create]
    by_cases hid : id = store.scopes.size
    · rw [if_pos hid, Array.getElem?_eq_none (Nat.le_of_eq hid.symm)]
      constructor
      · rintro (⟨_, heq, -⟩ | hnone)
        · cases heq
          rfl
        · cases hnone
      · rintro ⟨rfl⟩
        exact .inl ⟨bindings, rfl, hid.trans h.size⟩
    · rw [if_neg hid]
      refine ⟨fun hcreated => hcreated.resolve_left ?_, .inr⟩
      rintro ⟨-, -, hnew⟩
      exact hid (hnew.trans h.size.symm)
  · rw [binding?_create]
    by_cases hid : id = store.scopes.size
    · rw [if_pos hid]
      constructor
      · rintro (⟨⟨hinitial⟩⟩ | ⟨hbefore, -⟩)
        · exact hinitial
        · have hnone : store.binding? id name = none := binding?_of_size_le (Nat.le_of_eq hid.symm)
          cases hnone.symm.trans ((h.given _ _ _).1 hbefore)
      · intro hinitial
        rw [hid, h.size]
        exact .now (.initial hinitial)
    · rw [if_neg hid, ← h.given]
      apply lastGiven_cons_of_not_gives
      rintro other ⟨⟩
      exact hid h.size.symm

theorem Records.define (h : store.Records history) (hid : id < store.scopes.size) (name : String)
    (value : Value) : (store.define id name value).Records (.define id name value :: history) := by
  refine ⟨by rw [size_define, h.size]; rfl, fun other found => ?_, fun other name' value' => ?_⟩
  · rw [created_cons, h.created, parent_define]
    refine ⟨fun hcreated => hcreated.resolve_left ?_, .inr⟩
    rintro ⟨_, heq, -⟩
    cases heq
  · rw [binding?_define hid]
    by_cases hsame : other = id ∧ name' = name
    · obtain ⟨rfl, rfl⟩ := hsame
      rw [if_pos ⟨rfl, rfl⟩]
      constructor
      · rintro (⟨⟨⟩⟩ | ⟨-, hchange⟩)
        · rfl
        · exact absurd .define (hchange value)
      · rintro ⟨rfl⟩
        exact .now .define
    · rw [if_neg hsame, ← h.given]
      apply lastGiven_cons_of_not_gives
      rintro other' ⟨⟩
      exact hsame ⟨rfl, rfl⟩

theorem records_ofHistory (h : history.Proper) : (ofHistory history).Records history := by
  induction h with
  | nil => exact records_empty
  | create _ _ ih => exact ih.create _ _
  | define _ hid ih => exact ih.define (ih.size.symm ▸ hid) _ _

theorem Records.binding?_eq_none_iff (h : store.Records history) :
    store.binding? id name = none ↔ ¬history.EverGiven id name := by
  rw [History.everGiven_iff, Option.eq_none_iff_forall_ne_some, not_exists]
  exact forall_congr' fun value => not_congr (h.given id name value).symm

end Store

/-! ### Chains -/

namespace History

variable {history earlier : History} {id parent : ScopeId} {chain : List ScopeId} {name : String}
  {value : Value}

theorem Proper.of_suffix (h : history.Proper) (hsuffix : earlier <:+ history) :
    earlier.Proper := by
  induction h with
  | nil =>
      rw [List.suffix_nil.1 hsuffix]
      exact .nil
  | create h hparent ih =>
      rcases List.suffix_cons_iff.1 hsuffix with rfl | hsuffix
      · exact .create h hparent
      · exact ih hsuffix
  | define h hid ih =>
      rcases List.suffix_cons_iff.1 hsuffix with rfl | hsuffix
      · exact .define h hid
      · exact ih hsuffix

/-- Scopes are created after those that they are created in. -/
theorem Created.parent_lt (h : history.Proper) (hcreated : history.Created id (some parent)) :
    parent < id := by
  obtain ⟨bindings, earlier, hsuffix, rfl⟩ := hcreated
  cases h.of_suffix hsuffix with
  | create _ hparent => exact hparent parent rfl

theorem Chain.length_le (hchain : Chain history id chain) (h : history.Proper) :
    chain.length ≤ id + 1 := by
  induction hchain with
  | top _ => exact Nat.le_add_left _ _
  | inside hcreated _ ih => exact Nat.succ_le_succ (Nat.le_trans ih (hcreated.parent_lt h))

theorem exists_chain (h : history.Proper) (hid : id < history.creations) :
    ∃ chain, Chain history id chain := by
  have hrecords := Store.records_ofHistory h
  induction id using Nat.strongRecOn with
  | ind id ih =>
      rw [← hrecords.size] at hid
      have hcreated : history.Created id (Store.ofHistory history).scopes[id].parent :=
        (hrecords.created _ _).2 (by rw [Array.getElem?_eq_getElem hid]; rfl)
      rw [hrecords.size] at hid
      cases hparent : (Store.ofHistory history).scopes[id].parent with
      | none => exact ⟨_, .top (hparent ▸ hcreated)⟩
      | some parent =>
          rw [hparent] at hcreated
          have hlt := hcreated.parent_lt h
          obtain ⟨rest, hrest⟩ := ih parent hlt (Nat.lt_trans hlt hid)
          exact ⟨_, .inside hcreated hrest⟩

theorem Chain.mono {history' : History} (hchain : Chain history id chain)
    (h : ∀ id parent, history.Created id parent → history'.Created id parent) :
    Chain history' id chain := by
  induction hchain with
  | top hcreated => exact .top (h _ _ hcreated)
  | inside hcreated _ ih => exact .inside (h _ _ hcreated) ih

/-- A definition changes no chain. -/
theorem chain_define_iff {s : ScopeId} :
    Chain (.define s name value :: history) id chain ↔ Chain history id chain := by
  constructor
  · intro hchain
    refine hchain.mono fun id parent hcreated => ?_
    rcases created_cons.1 hcreated with ⟨_, heq, -⟩ | hbefore
    · cases heq
    · exact hbefore
  · exact fun hchain => hchain.mono fun id parent hbefore => created_cons.2 (.inr hbefore)

/-- Whether a scope stands on a chain, and no scope before it was ever given a name. -/
def Foremost (history : History) (chain : List ScopeId) (id : ScopeId) (name : String) : Prop :=
  ∃ below above, chain = below ++ id :: above ∧ ∀ other ∈ below, ¬history.EverGiven other name

end History

/-! ### Lookups -/

namespace Store

open CallLang.History (Chain Foremost)

variable {store : Store} {history : History} {t s : ScopeId} {chain : List ScopeId} {name : String}
  {value : Value}

theorem binding?_eq {id : ScopeId} {scope : Scope} (h : store.scopes[id]? = some scope)
    (name : String) : store.binding? id name = scope.bindings.get? name := by
  rw [binding?, h]
  rfl

/-- The scopes from one on upwards, each followed by the scope around it. -/
inductive Ancestry (store : Store) : ScopeId → List ScopeId → Prop where
  | top {id : ScopeId} {scope : Scope} (hscope : store.scopes[id]? = some scope)
      (hparent : scope.parent = none) : Ancestry store id [id]
  | inside {id parent : ScopeId} {scope : Scope} {rest : List ScopeId}
      (hscope : store.scopes[id]? = some scope) (hparent : scope.parent = some parent)
      (hrest : Ancestry store parent rest) : Ancestry store id (id :: rest)

/-- A search goes up the scopes around. -/
theorem Ancestry.find?_eq (h : store.Ancestry t chain) {reach : Nat} (hreach : chain.length ≤ reach)
    (name : String) : store.find? name reach t = chain.findSome? (store.binding? · name) := by
  induction h generalizing reach with
  | @top id scope hscope hparent =>
      obtain ⟨reach, rfl⟩ := Nat.exists_eq_succ_of_ne_zero (Nat.ne_of_gt hreach)
      rw [List.findSome?_singleton, binding?_eq hscope]
      simp only [find?, hscope, hparent]
      cases scope.bindings.get? name <;> rfl
  | @inside id parent scope rest hscope hparent _ ih =>
      obtain ⟨reach, rfl⟩ := Nat.exists_eq_succ_of_ne_zero (Nat.ne_of_gt (Nat.lt_of_lt_of_le
        (Nat.succ_pos _) hreach))
      rw [List.findSome?_cons, binding?_eq hscope]
      simp only [find?, hscope, hparent]
      cases scope.bindings.get? name with
      | some value => rfl
      | none => exact ih (Nat.le_of_succ_le_succ hreach)

theorem Records.ancestry (h : store.Records history) (hchain : Chain history t chain) :
    store.Ancestry t chain := by
  induction hchain with
  | top hcreated =>
      obtain ⟨scope, hscope, hparent⟩ := Option.map_eq_some_iff.1 ((h.created _ _).1 hcreated)
      exact .top hscope hparent
  | inside hcreated _ ih =>
      obtain ⟨scope, hscope, hparent⟩ := Option.map_eq_some_iff.1 ((h.created _ _).1 hcreated)
      exact .inside hscope hparent ih

theorem Records.lookup?_eq (h : store.Records history) (hproper : history.Proper)
    (hchain : Chain history t chain) (ht : t < history.creations) (name : String) :
    store.lookup? t name = chain.findSome? (store.binding? · name) := by
  refine (h.ancestry hchain).find?_eq ?_ name
  rw [h.size]
  exact Nat.le_trans (hchain.length_le hproper) ht

theorem Records.lookup?_eq_some_iff (h : store.Records history) (hproper : history.Proper)
    (hchain : Chain history t chain) (ht : t < history.creations) :
    store.lookup? t name = some value ↔
      ∃ s, Foremost history chain s name ∧ history.LastGiven s name value := by
  rw [h.lookup?_eq hproper hchain ht, List.findSome?_eq_some_iff]
  simp only [h.binding?_eq_none_iff, ← h.given]
  constructor
  · rintro ⟨below, s, above, heq, hgiven, hbelow⟩
    exact ⟨s, ⟨below, above, heq, hbelow⟩, hgiven⟩
  · rintro ⟨s, ⟨below, above, heq, hbelow⟩, hgiven⟩
    exact ⟨below, s, above, heq, hgiven, hbelow⟩

theorem Records.lookup?_eq_none_iff (h : store.Records history) (hproper : history.Proper)
    (hchain : Chain history t chain) (ht : t < history.creations) :
    store.lookup? t name = none ↔ ∀ s ∈ chain, ¬history.EverGiven s name := by
  rw [h.lookup?_eq hproper hchain ht, List.findSome?_eq_none_iff]
  simp only [h.binding?_eq_none_iff]

/-- Another value in one place of a list is found just if nothing is found before this place. -/
theorem findSome?_of_update (f g : ScopeId → Option Value) (hs : g s = some value)
    (hother : ∀ other, other ≠ s → g other = f other) (chain : List ScopeId) :
    ((∃ below above, chain = below ++ s :: above ∧ ∀ other ∈ below, f other = none) ∧
        chain.findSome? g = some value) ∨
      ((¬∃ below above, chain = below ++ s :: above ∧ ∀ other ∈ below, f other = none) ∧
        chain.findSome? g = chain.findSome? f) := by
  induction chain with
  | nil => exact .inr ⟨fun ⟨below, above, heq, _⟩ => by simp at heq, rfl⟩
  | cons first rest ih =>
      by_cases hfirst : first = s
      · subst hfirst
        exact .inl ⟨⟨[], rest, rfl, nofun⟩, by rw [List.findSome?_cons, hs]⟩
      rw [List.findSome?_cons, List.findSome?_cons, hother first hfirst]
      cases hfound : f first with
      | some found =>
          refine .inr ⟨?_, rfl⟩
          rintro ⟨_ | ⟨other, below⟩, above, heq, hbelow⟩
          · exact hfirst (List.cons.inj heq).1
          · obtain rfl := (List.cons.inj heq).1
            cases hfound.symm.trans (hbelow first List.mem_cons_self)
      | none =>
          rcases ih with ⟨⟨below, above, rfl, hbelow⟩, hg⟩ | ⟨hnot, hg⟩
          · exact .inl ⟨⟨first :: below, above, rfl, List.forall_mem_cons.2 ⟨hfound, hbelow⟩⟩, hg⟩
          · refine .inr ⟨?_, hg⟩
            rintro ⟨_ | ⟨other, below⟩, above, heq, hbelow⟩
            · exact hfirst (List.cons.inj heq).1
            · exact hnot ⟨below, above, (List.cons.inj heq).2, fun other' hmem =>
                hbelow other' (List.mem_cons_of_mem _ hmem)⟩

/-- A definition is found where it is foremost, and nothing else is found that was not found
    before. -/
theorem Records.lookup?_define (h : store.Records history) (hproper : history.Proper)
    (hchain : Chain history t chain) (ht : t < history.creations) (hs : s < history.creations)
    (name : String) (value : Value) (other : String) :
    ((other = name ∧ Foremost history chain s name) ∧
        (store.define s name value).lookup? t other = some value) ∨
      (¬(other = name ∧ Foremost history chain s name) ∧
        (store.define s name value).lookup? t other = store.lookup? t other) := by
  have hsize : s < store.scopes.size := h.size.symm ▸ hs
  have hafter := h.define hsize name value
  have hbinding := binding?_define hsize name value
  rw [hafter.lookup?_eq (.define hproper hs) (History.chain_define_iff.2 hchain) ht,
    h.lookup?_eq hproper hchain ht]
  by_cases hother : other = name
  · subst hother
    have hself : (store.define s other value).binding? s other = some value := by
      rw [hbinding, if_pos ⟨rfl, rfl⟩]
    have hupdate := findSome?_of_update (store.binding? · other)
      ((store.define s other value).binding? · other) hself
      (fun id hid => by rw [hbinding, if_neg fun hsame => hid hsame.1]) chain
    simpa only [h.binding?_eq_none_iff, true_and, Foremost] using hupdate
  · have hsame : ((store.define s name value).binding? · other) = (store.binding? · other) := by
      funext id
      rw [hbinding, if_neg fun hsame => hother hsame.2]
    exact .inr ⟨fun hforemost => hother hforemost.1, by rw [hsame]⟩

end Store

namespace Action

theorem lookup_eq_ok_iff {id : ScopeId} {name : String} {span : Span} {store : Store}
    {value : Value} :
    (lookup id name span store).1 = .ok value ↔ store.lookup? id name = some value := by
  unfold lookup
  cases store.lookup? id name <;> simp

theorem lookup_eq_error_iff {id : ScopeId} {name : String} {span : Span} {store : Store} :
    (lookup id name span store).1 = .error (.mistake (.unbound name) (some span)) ↔
      store.lookup? id name = none := by
  unfold lookup
  cases store.lookup? id name <;> simp

theorem lookup_eq_iff {id : ScopeId} {name : String} {span : Span} {store store' : Store} :
    (lookup id name span store').1 = (lookup id name span store).1 ↔
      store'.lookup? id name = store.lookup? id name := by
  cases hfound : store.lookup? id name with
  | some value => rw [lookup_eq_ok_iff.2 hfound, lookup_eq_ok_iff]
  | none => rw [lookup_eq_error_iff.2 hfound, lookup_eq_error_iff]

end Action

namespace Store

open CallLang.History (Chain Foremost)

/-- Whatever was done to scopes, a lookup yields the value that was given last in the nearest scope
    around that was ever given the name, and a mistake if there is none.  So one more definition
    changes what a lookup yields just if it is of the same name, nothing nearer was ever given
    this name, and the value is another one.  It changes nothing else. -/
theorem lookups_follow_history {history : History} (h : history.Proper) {t : ScopeId}
    (ht : t < history.creations) :
    let store := ofHistory history
    (∃ chain, Chain history t chain) ∧
    ∀ chain, Chain history t chain →
      (∀ name span,
        (∀ value, (Action.lookup t name span store).1 = .ok value ↔
          ∃ s, Foremost history chain s name ∧ history.LastGiven s name value) ∧
        ((Action.lookup t name span store).1 = .error (.mistake (.unbound name) (some span)) ↔
          ∀ s ∈ chain, ¬history.EverGiven s name)) ∧
      ∀ s name value, s < history.creations →
        let store' := ofHistory (.define s name value :: history)
        (∀ other span,
          (Action.lookup t other span store').1 ≠ (Action.lookup t other span store).1 ↔
            other = name ∧ Foremost history chain s name ∧
              (Action.lookup t other span store).1 ≠ .ok value) ∧
        (∀ chain', Chain (.define s name value :: history) t chain' ↔ Chain history t chain') ∧
        (∀ other, other ≠ s → store'.scopes[other]? = store.scopes[other]?) ∧
        ∃ before after, store.scopes[s]? = some before ∧ store'.scopes[s]? = some after ∧
          after.parent = before.parent ∧
          ∀ other, after.bindings.get? other =
            if other = name then some value else before.bindings.get? other := by
  intro store
  have hrecords : store.Records history := records_ofHistory h
  refine ⟨History.exists_chain h ht, fun chain hchain =>
    ⟨fun name span => ⟨fun value => ?_, ?_⟩, ?_⟩⟩
  · rw [Action.lookup_eq_ok_iff]
    exact hrecords.lookup?_eq_some_iff h hchain ht
  · rw [Action.lookup_eq_error_iff]
    exact hrecords.lookup?_eq_none_iff h hchain ht
  · intro s name value hs store'
    have hstore : store' = store.define s name value := rfl
    have hsize : s < store.scopes.size := hrecords.size.symm ▸ hs
    refine ⟨fun other span => ?_, fun chain' => History.chain_define_iff,
      fun other hother => ?_, ?_⟩
    · rw [hstore, Ne, Ne, Action.lookup_eq_iff, Action.lookup_eq_ok_iff]
      rcases hrecords.lookup?_define h hchain ht hs name value other with
        ⟨⟨rfl, hforemost⟩, hfound⟩ | ⟨hnot, hsame⟩
      · rw [hfound]
        exact ⟨fun hchanged => ⟨rfl, hforemost, Ne.symm hchanged⟩,
          fun hchanged => Ne.symm hchanged.2.2⟩
      · exact ⟨fun hchanged => absurd hsame hchanged,
          fun hchanged => absurd ⟨hchanged.1, hchanged.2.1⟩ hnot⟩
    · rw [hstore]
      exact scopes_define_of_ne _ _ _ _ hother
    · rw [hstore, scopes_define_self, Array.getElem?_eq_getElem hsize]
      exact ⟨_, _, rfl, rfl, rfl, fun other => Table.get?_set _ _ _ _⟩

/-- A name that is defined in a scope hides the one around it, whatever is defined there
    afterwards. -/
theorem lookups_follow_history_hidden :
    let history : History :=
      [.define 1 "x" (.int 5), .create (some 0) [], .create none [("x", .int 1)]]
    let lookup (history : History) : Except Stop Value :=
      (Action.lookup 1 "x" ⟨0, 1⟩ (ofHistory history)).1
    history.Proper ∧ 1 < history.creations ∧ lookup history = .ok (.int 5) ∧
      lookup (.define 0 "x" (.int 7) :: history) = lookup history := by
  intro history lookup
  have hproper : history.Proper :=
    .define (.create (.create .nil nofun) (by rintro id ⟨rfl⟩; decide)) (by decide)
  have hsize : 1 < history.creations := by decide
  have hchain : Chain history 1 [1, 0] :=
    .inside ⟨[], _, ⟨[_], rfl⟩, rfl⟩ (.top ⟨_, [], ⟨[_, _], rfl⟩, rfl⟩)
  obtain ⟨-, hlookups⟩ := lookups_follow_history hproper hsize
  obtain ⟨hfound, hdefine⟩ := hlookups [1, 0] hchain
  refine ⟨hproper, hsize, ?_, ?_⟩
  · exact ((hfound "x" ⟨0, 1⟩).1 (.int 5)).2 ⟨1, ⟨[], [0], rfl, nofun⟩, .now .define⟩
  · by_contra hchanged
    obtain ⟨-, ⟨below, above, heq, hbelow⟩, -⟩ :=
      ((hdefine 0 "x" (.int 7) (by decide)).1 "x" ⟨0, 1⟩).1 hchanged
    rcases below with _ | ⟨first, below⟩
    · cases heq
    · obtain rfl := (List.cons.inj heq).1
      exact hbelow 1 List.mem_cons_self ⟨_, _, _, List.suffix_refl _, .define⟩

end Store

end CallLang
