/-
  CallLang/Proofs/Repetition.lean
  ===============================
  **Functions have no memory.**

  Applying a value to the same arguments once more comes to the same: the same text is
  printed, and the mistake or the value is the same, up to the numbers of the scopes and
  closures that were made on the way.

  The first application changes no scope that existed before, so the second finds the
  store as the first has found it, with more scopes behind.  What existed before stands
  for itself, and from there on the two run in step.
-/
import CallLang.Proofs.References

namespace CallLang

/-- The renaming of what some work has made to what it makes when it is done again.  What
    existed before keeps its number, and what is new comes behind all that exists then, in the
    same order. -/
def Store.renaming (before after : Store) : Correspondence where
  scopes := fun id id' => (id < before.scopes.size ∧ id' = id) ∨
    (before.scopes.size ≤ id ∧ id < after.scopes.size ∧
      id' = after.scopes.size + (id - before.scopes.size))
  closures := fun id id' => (id < before.closures ∧ id' = id) ∨
    (before.closures ≤ id ∧ id < after.closures ∧ id' = after.closures + (id - before.closures))

theorem Extends.renaming {r : Nat → Nat → Prop} {before after last : Nat}
    (h : Extends (fun id id' => id < before ∧ id' = id) r before after after last) :
    r = (fun id id' => (id < before ∧ id' = id) ∨
      (before ≤ id ∧ id < after ∧ id' = after + (id - before))) ∧
      last = after + (after - before) := by
  obtain ⟨steps, rfl, rfl, hiff⟩ := h
  constructor
  · funext id id'
    refine propext ((hiff id id').trans (or_congr_right ?_))
    constructor
    · rintro ⟨k, hk, rfl, rfl⟩
      exact ⟨by omega, by omega, by omega⟩
    · rintro ⟨hbefore, hafter, rfl⟩
      exact ⟨id - before, by omega, by omega, by omega⟩
  · omega

/-- The comparison of two runs of one text, the second of which goes on where the first has
    ended. -/
def Comparison.following (before after : Store) : Comparison :=
  { spans := Eq, told := before.printed, told' := after.printed }

theorem Comparison.spans_following (before after : Store) :
    (following before after).spans = strict.spans := rfl

variable {store after : Store}

/-- A sound store is the same as every store that has come from it without a change to its
    scopes. -/
theorem Store.Sound.same_of_frozen (h : store.Sound) (hfrozen : Store.Frozen store after) :
    Store.Same (.following store after) store.identity store after where
  scopes := by
    rintro id id' ⟨hid, rfl⟩
    exact h.sameAt_of_frozen (Comparison.spans_following store after).ge (refl_of _ store) hfrozen
      hid
  closures := by
    rintro id id' ⟨hid, rfl⟩
    exact ⟨hid, Nat.lt_of_lt_of_le hid hfrozen.closures⟩
  scopesUnambiguous := h.scopesUnambiguous
  closuresUnambiguous := h.closuresUnambiguous
  printed := ⟨#[], rfl, rfl⟩

/-- Applying a value once more, in whatever state the first application has left, comes to the
    same. -/
theorem Limits.apply_again (limits : Limits) (place : Option Span) {callee : Value}
    {arguments : List Value} (hstore : store.Sound) (hcallee : callee.Within store)
    (harguments : ∀ argument ∈ arguments, argument.Within store) :
    let first := limits.apply place callee arguments store
    let again := limits.apply place callee arguments first.2
    let w := store.renaming first.2
    (∃ since, first.2.printed = store.printed ++ since ∧
        again.2.printed = first.2.printed ++ since) ∧
      Result.Same .strict (Value.Same .strict w) first.1 again.1 ∧
      Store.Same .strict w first.2.quiet again.2.quiet ∧
      again.2.scopes.size = first.2.scopes.size + (first.2.scopes.size - store.scopes.size) ∧
      again.2.closures = first.2.closures + (first.2.closures - store.closures) := by
  intro first again w
  let c := Comparison.following store first.2
  have hspans : c.spans = Comparison.strict.spans := Comparison.spans_following store first.2
  have hplace : Option.Rel c.spans place place := Comparison.rel_place (fun _ => rfl) place
  have happly : Action.Same c (Store.Same c) store.identity (Value.Same c)
      (limits.apply place callee arguments) (limits.apply place callee arguments) :=
    Evaluator.same_apply (Store.likeness c) (Evaluator.same_eval (Store.likeness c) _ _) _ hplace
      (Value.Same.map hspans.ge (.refl _) hcallee)
      (.of_forall fun argument hmem => (harguments argument hmem).map hspans.ge (.refl _))
  obtain ⟨w', hgrows, hsame, hresult⟩ := happly store.identity store first.2 (.refl _)
    (hstore.same_of_frozen ((limits.writes_local store).2 place callee arguments))
  obtain ⟨hscopes, hsize⟩ := hgrows.scopes.renaming
  obtain ⟨hclosures, hcount⟩ := hgrows.closures.renaming
  obtain rfl : w' = w := by
    obtain ⟨scopes, closures⟩ := w'
    exact Correspondence.mk.injEq _ _ _ _ ▸ ⟨hscopes, hclosures⟩
  exact ⟨hsame.printed, hresult.map hspans.le, hsame.map hspans.le ⟨#[], rfl, rfl⟩, hsize, hcount⟩

/-- A function that makes functions makes another one each time, which captures another scope. -/
theorem Limits.apply_again_function :
    let body : Expr := .call (.name "fun" ⟨0, 3⟩) [.name "y" ⟨4, 5⟩, .name "x" ⟨7, 8⟩] ⟨0, 9⟩
    let made := Action.close ["x"] body Process.fresh.globals Process.fresh.store
    let callee : Value := .closure 0 ["x"] body Process.fresh.globals
    let first := Limits.apply ⟨1, 0⟩ none callee [.boolean true] made.2
    let again := Limits.apply ⟨1, 0⟩ none callee [.boolean true] first.2
    made.1 = .ok callee ∧ made.2.Sound ∧ callee.Within made.2 ∧
      first.1 = .ok (.closure 1 ["y"] (.name "x" ⟨7, 8⟩) 1) ∧
      again.1 = .ok (.closure 2 ["y"] (.name "x" ⟨7, 8⟩) 2) ∧
      Result.Same .strict (Value.Same .strict (made.2.renaming first.2)) first.1 again.1 := by
  intro body made callee first again
  have hbody : body.Plain := by
    refine .call _ (.name _ _) fun argument hmem => ?_
    rcases List.mem_cons.1 hmem with rfl | hmem
    · exact .name _ _
    · rw [List.mem_singleton.1 hmem]
      exact .name _ _
  have hmade := Action.Same.sound (Action.Same.close (Store.likeness .strict) ["x"]
    (hbody.within Process.fresh.store) ⟨Nat.zero_lt_one, rfl⟩) Process.sound_fresh
  have hcallee : callee.Within made.2 := hmade.2 callee rfl
  have harguments : ∀ argument ∈ [Value.boolean true], argument.Within made.2 := by
    intro argument hmem
    rw [List.mem_singleton.1 hmem]
    exact .boolean true
  have hagain := Limits.apply_again ⟨1, 0⟩ none hmade.1 hcallee harguments
  exact ⟨rfl, hmade.1, hcallee, rfl, rfl, hagain.2.1⟩

end CallLang
