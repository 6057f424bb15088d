/-
  CallLang/Proofs/Registrations.lean
  ==================================
  **Which source is current.**

  Sources are registered and removed, complaints are reported and endings are settled,
  in any order.  Whatever has been done with a reporter, the current source is one of
  those that are registered, unless there are none, so a report that names a path is
  located in the text of this path.

  The order of the sources matters only for what is current after a removal.  A source
  that is registered again keeps its place in it, so the current source need not be the
  last one.
-/
import CallLang.Proofs.Reports
import Mathlib.Data.List.Nodup

namespace CallLang

/-! ### The names in a table -/

namespace Table

variable {α : Type}

theorem newest?_eq (table : Table α) : table.newest? = table.names.getLast? := by
  rw [newest?, names, List.getLast?_map]

theorem newest?_eq_none_iff {table : Table α} : table.newest? = none ↔ table = [] := by
  rw [newest?, Option.map_eq_none_iff, List.getLast?_eq_none_iff]

theorem mem_names_iff {table : Table α} {name : String} :
    name ∈ table.names ↔ ∃ entry, table.get? name = some entry := by
  induction table with
  | nil => simp [names]
  | cons first table ih =>
      obtain ⟨other, entry⟩ := first
      change name ∈ other :: names table ↔ _
      rw [List.mem_cons, get?_cons, ih]
      by_cases h : name = other <;> simp [h]

theorem mem_names_of_newest? {table : Table α} {name : String} (h : table.newest? = some name) :
    name ∈ table.names := by
  rw [newest?_eq] at h
  exact List.mem_of_getLast? h

/-- A new name comes in last, and all others keep their places. -/
theorem names_set (table : Table α) (name : String) (entry : α) :
    (table.set name entry).names =
      if name ∈ table.names then table.names else table.names ++ [name] := by
  induction table with
  | nil => rfl
  | cons first table ih =>
      obtain ⟨other, old⟩ := first
      unfold set
      by_cases h : other = name
      · subst h
        rw [if_pos rfl]
        exact (if_pos List.mem_cons_self).symm
      · rw [if_neg h]
        change other :: (set table name entry).names = _
        have hmem : name ∈ names ((other, old) :: table) ↔ name ∈ names table :=
          ⟨fun hname => (List.mem_cons.1 hname).resolve_left (Ne.symm h),
            List.mem_cons_of_mem other⟩
        rw [ih]
        by_cases hname : name ∈ names table
        · rw [if_pos hname, if_pos (hmem.2 hname)]
          rfl
        · rw [if_neg hname, if_neg (hname ∘ hmem.1)]
          rfl

theorem nodup_names_set {table : Table α} (h : table.names.Nodup) (name : String) (entry : α) :
    (table.set name entry).names.Nodup := by
  rw [names_set]
  split
  · exact h
  · next hname =>
      refine h.append (List.nodup_singleton name) ?_
      intro other hother hsame
      exact hname (List.mem_singleton.1 hsame ▸ hother)

theorem names_erase (table : Table α) (name : String) :
    (table.erase name).names = table.names.filter (· ≠ name) := by
  rw [erase, names, names, List.filter_map]
  rfl

theorem erase_cons (other : String) (entry : α) (table : Table α) (name : String) :
    erase ((other, entry) :: table) name =
      if other = name then table.erase name else (other, entry) :: table.erase name := by
  by_cases h : other = name <;> simp [erase, h]

theorem get?_erase (table : Table α) (name other : String) :
    (table.erase name).get? other = if other = name then none else table.get? other := by
  induction table with
  | nil => simp [erase]
  | cons first table ih =>
      obtain ⟨key, entry⟩ := first
      rw [erase_cons, get?_cons]
      by_cases hkey : key = name
      · subst hkey
        rw [if_pos rfl, ih]
        by_cases hother : other = key <;> simp [hother]
      · rw [if_neg hkey, get?_cons, ih]
        by_cases hother : other = key
        · simp [hother, hkey]
        · simp [hother]

/-- What is written under a name does not matter once the name is erased. -/
theorem erase_set (table : Table α) (name : String) (entry : α) :
    (table.set name entry).erase name = table.erase name := by
  induction table with
  | nil => simp [set, erase]
  | cons first table ih =>
      obtain ⟨other, old⟩ := first
      unfold set
      by_cases hother : other = name
      · rw [if_pos hother, erase_cons, erase_cons, if_pos rfl, if_pos hother]
      · rw [if_neg hother, erase_cons, erase_cons, if_neg hother, if_neg hother]
        exact congrArg _ ih

theorem erase_of_not_mem {table : Table α} {name : String} (h : name ∉ table.names) :
    table.erase name = table := by
  refine List.filter_eq_self.2 fun entry hentry => ?_
  have hname : entry.1 ∈ table.names := List.mem_map_of_mem hentry
  have hne : entry.1 ≠ name := fun heq => h (heq ▸ hname)
  exact decide_eq_true hne

end Table

/-! ### Dealing with a reporter -/

namespace Reporter

/-- What can be done with a reporter. -/
inductive Step where
  | register (path source : String)
  | remove (path : String)
  | warn (complaint : Complaint)
  | throw (complaint : Complaint)
  /-- Settle what has ended the work under the reporter's care. -/
  | settle (ending : Ending)

/-- What is written in a step, the reporter after it, and the ending that goes on, if one
    does. -/
def act (reporter : Reporter) : Step → Settled
  | .register path source =>
    { text := "", reporter := reporter.register path source, leaving := none }
  | .remove path => { text := "", reporter := reporter.remove path, leaving := none }
  | .warn complaint => { text := reporter.warn complaint, reporter, leaving := none }
  | .throw complaint => reporter.throw complaint
  | .settle ending => reporter.settle ending

/-- The reporter after steps, whether or not endings went on from some of them. -/
def after (reporter : Reporter) (steps : List Step) : Reporter :=
  steps.foldl (fun reporter step => (reporter.act step).reporter) reporter

/-- What holds of the sources of a reporter at all times. -/
structure Sound (reporter : Reporter) : Prop where
  none_iff : reporter.current = none ↔ reporter.sources = []
  registered : ∀ path, reporter.current = some path → path ∈ reporter.sources.names
  nodup : reporter.sources.names.Nodup

variable {reporter : Reporter}

/-! ### One step -/

theorem throw_cases (reporter : Reporter) (complaint : Complaint) :
    (reporter.throw complaint).text =
        reporter.present .error complaint.category.label complaint ∧
      ((reporter.throw complaint).reporter = reporter ∨
        (reporter.throw complaint).reporter = reporter.clear) := by
  unfold throw
  split
  · exact ⟨rfl, .inl rfl⟩
  · exact ⟨rfl, .inr rfl⟩

/-- Settling an ending reports one complaint and forgets all sources unless the reporter is
    fatal, or it does nothing. -/
theorem settle_cases (reporter : Reporter) (ending : Ending) :
    ((reporter.settle ending).text = "" ∧ (reporter.settle ending).reporter = reporter) ∨
      ∃ complaint, (reporter.settle ending).text = (reporter.throw complaint).text ∧
        (reporter.settle ending).reporter = (reporter.throw complaint).reporter := by
  cases ending with
  | complaint complaint => exact .inr ⟨_, rfl, rfl⟩
  | interrupt => exact .inr ⟨_, rfl, rfl⟩
  | breakdown cause => cases cause <;> exact .inr ⟨_, rfl, rfl⟩
  | exit status => exact .inl ⟨rfl, rfl⟩
  | unfinished => exact .inl ⟨rfl, rfl⟩

theorem sound_new (fatal color : Bool) : (new fatal color).Sound :=
  ⟨⟨fun _ => rfl, fun _ => rfl⟩, nofun, List.nodup_nil⟩

theorem sound_clear (reporter : Reporter) : reporter.clear.Sound :=
  ⟨⟨fun _ => rfl, fun _ => rfl⟩, nofun, List.nodup_nil⟩

theorem Sound.register (h : reporter.Sound) (path source : String) :
    (reporter.register path source).Sound := by
  have hmem : path ∈ (reporter.sources.set path source).names :=
    Table.mem_names_iff.2 ⟨source, by rw [Table.get?_set, if_pos rfl]⟩
  refine ⟨⟨nofun, fun hempty => ?_⟩, ?_, Table.nodup_names_set h.nodup path source⟩
  · simp only [Reporter.register] at hempty
    rw [hempty] at hmem
    cases hmem
  · rintro other ⟨rfl⟩
    exact hmem

theorem Sound.remove (h : reporter.Sound) (path : String) : (reporter.remove path).Sound := by
  refine ⟨Table.newest?_eq_none_iff, fun other => Table.mem_names_of_newest?, ?_⟩
  change (reporter.sources.erase path).names.Nodup
  rw [Table.names_erase]
  exact h.nodup.filter _

theorem Sound.throw (h : reporter.Sound) (complaint : Complaint) :
    (reporter.throw complaint).reporter.Sound := by
  rcases (reporter.throw_cases complaint).2 with heq | heq
  · rwa [heq]
  · rw [heq]
    exact reporter.sound_clear

/-- No step makes a source current that is not registered. -/
theorem Sound.act (h : reporter.Sound) (step : Step) : (reporter.act step).reporter.Sound := by
  cases step with
  | register path source => exact h.register path source
  | remove path => exact h.remove path
  | warn complaint => exact h
  | throw complaint => exact h.throw complaint
  | settle ending =>
      change (reporter.settle ending).reporter.Sound
      rcases reporter.settle_cases ending with ⟨-, heq⟩ | ⟨complaint, -, heq⟩
      · rwa [heq]
      · rw [heq]
        exact h.throw complaint

/-- What is written in a step is the report of a complaint. -/
theorem text_act (reporter : Reporter) (step : Step) :
    (reporter.act step).text = "" ∨
      ∃ style label complaint,
        (reporter.act step).text = reporter.present style label complaint := by
  cases step with
  | register path source => exact .inl rfl
  | remove path => exact .inl rfl
  | warn complaint => exact .inr ⟨_, _, complaint, rfl⟩
  | throw complaint => exact .inr ⟨_, _, complaint, (reporter.throw_cases complaint).1⟩
  | settle ending =>
      rcases reporter.settle_cases ending with ⟨htext, -⟩ | ⟨complaint, htext, -⟩
      · exact .inl htext
      · exact .inr ⟨_, _, complaint, htext.trans (reporter.throw_cases complaint).1⟩

/-! ### Any number of steps -/

theorem Sound.after (h : reporter.Sound) (steps : List Step) : (reporter.after steps).Sound := by
  induction steps generalizing reporter with
  | nil => exact h
  | cons step rest ih => exact ih (h.act step)

theorem Sound.exists_source (h : reporter.Sound) {path : String}
    (hcurrent : reporter.current = some path) :
    ∃ source, reporter.sources.get? path = some source ∧ reporter.source = source := by
  obtain ⟨source, hsource⟩ := Table.mem_names_iff.1 (h.registered path hcurrent)
  refine ⟨source, hsource, ?_⟩
  rw [Reporter.source, hcurrent]
  change (reporter.sources.get? path).getD "" = source
  rw [hsource]
  rfl

/-- Registering a new source and removing it again changes nothing if the newest source was
    current. -/
theorem remove_register_new {path : String} (hpath : path ∉ reporter.sources.names)
    (hcurrent : reporter.current = reporter.sources.newest?) (source : String) :
    (reporter.register path source).remove path = reporter := by
  unfold remove register
  simp only [Table.erase_set, Table.erase_of_not_mem hpath, ← hcurrent]

/-- Whatever has been done with a reporter, its current source is one of those registered, and
    there is none only if none is registered.  Every report is located in the text of the
    current source, and nothing else is written.  No path is registered twice, a path that is
    registered again keeps its place, and a new source that is removed again leaves everything
    as it was if the newest source was current before. -/
theorem current_registered (fatal color : Bool) (steps : List Step) :
    let reporter := (new fatal color).after steps
    (reporter.current = none ↔ reporter.sources = []) ∧
      (∀ path, reporter.current = some path → path ∈ reporter.sources.names ∧
        ∃ source, reporter.sources.get? path = some source ∧ reporter.source = source ∧
          (∀ style label complaint, reporter.present style label complaint =
            Text.Style.bold.paint reporter.color (path ++ addressMark source complaint.start) ++
              reporter.body style label complaint) ∧
          ∀ step, (reporter.act step).text = "" ∨ ∃ style label complaint,
            (reporter.act step).text = reporter.present style label complaint) ∧
      reporter.sources.names.Nodup ∧
      (∀ path ∈ reporter.sources.names, ∀ source,
        (reporter.register path source).sources.names = reporter.sources.names) ∧
      ∀ path source, path ∉ reporter.sources.names →
        reporter.current = reporter.sources.newest? →
        (reporter.register path source).remove path = reporter := by
  intro reporter
  have hsound : reporter.Sound := (sound_new fatal color).after steps
  refine ⟨hsound.none_iff, fun path hcurrent => ⟨hsound.registered path hcurrent, ?_⟩,
    hsound.nodup, fun path hpath source => ?_, fun path source hpath hcurrent =>
      remove_register_new hpath hcurrent source⟩
  · obtain ⟨source, hregistered, hsource⟩ := hsound.exists_source hcurrent
    refine ⟨source, hregistered, hsource, fun style label complaint => ?_, reporter.text_act⟩
    rw [present_eq hcurrent, hsource]
  · exact (Table.names_set _ path source).trans (if_pos hpath)

/-- The current source need not be the newest one: it is not after a path has been registered
    again.  Then a source that is registered and removed leaves another one current. -/
example :
    let reporter := (new false false).after
      [.register "a" "1", .register "b" "2", .register "a" "3"]
    reporter.sources = [("a", "3"), ("b", "2")] ∧ reporter.current = some "a" ∧
      ((reporter.register "c" "4").remove "c").current = some "b" := by
  decide

end Reporter

end CallLang
