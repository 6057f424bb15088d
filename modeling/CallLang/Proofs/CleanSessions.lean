/-
  CallLang/Proofs/CleanSessions.lean
  ==================================
  **Sessions without escape characters.**

  If no text that is given to a session has an escape character in it, nothing has that the
  session writes without colour.  For the values in its scopes are clean, and what it says is put
  together from them, from the texts that it was given, and from words of the language.
-/
import CallLang.Proofs.CleanRuns
import CallLang.Proofs.Decoration
import CallLang.Proofs.Warnings

namespace CallLang

/-- Whether work leaves what it should, and comes to a value of some kind or to a clean ending. -/
structure CleanWork {α σ : Type} (value : α → Prop) (left : σ → Prop)
    (work : Except Ending α × σ) : Prop where
  left : left work.2
  value : ∀ a, work.1 = .ok a → value a
  ending : ∀ ending, work.1 = .error ending → ending.Clean

namespace CleanWork

variable {α β σ : Type} {value : α → Prop} {left : σ → Prop}

theorem ok {a : α} {state : σ} (hvalue : value a) (hleft : left state) :
    CleanWork value left (.ok a, state) :=
  ⟨hleft, fun _ h => Except.ok.inj h ▸ hvalue, nofun⟩

theorem error {ending : Ending} {state : σ} (hending : ending.Clean) (hleft : left state) :
    CleanWork value left (.error ending, state) :=
  ⟨hleft, nofun, fun _ h => Except.error.inj h ▸ hending⟩

theorem cases {work : Except Ending α × σ} (h : CleanWork value left work) :
    (∃ ending state, ending.Clean ∧ left state ∧ work = (.error ending, state)) ∨
      ∃ a state, value a ∧ left state ∧ work = (.ok a, state) := by
  obtain ⟨ending | a, state⟩ := work
  · exact .inl ⟨ending, state, h.ending ending rfl, h.left, rfl⟩
  · exact .inr ⟨a, state, h.value a rfl, h.left, rfl⟩

theorem map {value' : β → Prop} {f : α → β} {work : Except Ending α × σ}
    (h : CleanWork value left work) (hvalue : ∀ a, value a → value' (f a)) :
    CleanWork value' left (work.1.map f, work.2) := by
  rcases h.cases with ⟨ending, state, hending, hleft, rfl⟩ | ⟨a, state, ha, hleft, rfl⟩
  · exact .error hending hleft
  · exact .ok (hvalue a ha) hleft

end CleanWork

/-! ### Workspaces -/

/-- Whether everything is clean that a workspace can come to say without colour. -/
structure Workspace.Clean (globals : ScopeId) (base : Nat) (workspace : Workspace) : Prop where
  path : Text.Clean workspace.path
  reporter : workspace.reporter.Clean
  color : workspace.reporter.color = false
  store : workspace.store.quiet.Clean globals base
  scope : (Origin.clean globals base).Home workspace.scope
  results : ∀ value ∈ workspace.results, value.Clean (Origin.clean globals base).Home
  output : ∀ piece ∈ workspace.output, Text.Clean piece.text

/-- A clean ending that is settled goes on as a clean one. -/
theorem Ending.Clean.leaving {ending : Ending} (h : ending.Clean) (reporter : Reporter) :
    ∀ other, (reporter.settle ending).leaving = some other → other.Clean := by
  have hthrow : ∀ complaint other, (reporter.throw complaint).leaving = some other →
      other.Clean := by
    intro complaint other hother
    unfold Reporter.throw at hother
    split at hother
    · obtain rfl := Option.some.inj hother
      trivial
    · cases hother
  cases ending with
  | complaint complaint => exact hthrow complaint
  | interrupt => exact hthrow _
  | breakdown cause =>
      have hinternal : ∀ other, ((reporter.throw (Reporter.internalComplaint cause)).leaving.or
          (some (.breakdown cause))) = some other → other.Clean := by
        intro other hother
        rcases Option.or_eq_some_iff.1 hother with hother | ⟨-, hother⟩
        · exact hthrow _ other hother
        · obtain rfl := Option.some.inj hother
          exact h
      cases cause with
      | tooDeep => exact hthrow _
      | _ => exact hinternal
  | exit status =>
      rintro other ⟨rfl⟩
      trivial
  | unfinished =>
      rintro other ⟨rfl⟩
      trivial

namespace Workspace

variable {globals : ScopeId} {base : Nat}

theorem clean_opened {reporter : Reporter} {path : String} {store : Store}
    (hglobals : store.scopes[globals]? =
      some { parent := none, bindings := Store.globalBindings globals })
    (hpath : Text.Clean path) (hreporter : reporter.Clean) (hcolor : reporter.color = false) :
    (Process.opened reporter path store globals).Clean globals store.scopes.size := by
  obtain ⟨hstore, hscope⟩ :=
    (Store.clean_of_globals hglobals).create (.inl rfl) Bindings.all_nil
  exact ⟨hpath, hreporter, hcolor, hstore, hscope, nofun, nofun⟩

/-- Nothing can be found in a new session that is not clean. -/
theorem New.clean {workspace : Workspace} (h : workspace.New) (hpath : Text.Clean workspace.path)
    (hreporter : workspace.reporter.Clean) :
    ∃ globals base, (workspace.withColor false).Clean globals base := by
  obtain ⟨reporter, path, store, globals, hglobals, rfl⟩ := h.exists_opened
  have hplain : (reporter.withColor false).Clean := ⟨hreporter.sources, hreporter.current⟩
  exact ⟨globals, store.scopes.size, clean_opened hglobals hpath hplain rfl⟩

namespace Clean

variable {workspace : Workspace}

theorem transcript (h : workspace.Clean globals base) : Text.Clean workspace.transcript := by
  rw [Workspace.transcript, Text.clean_join]
  intro text hmem
  obtain ⟨piece, hpiece, rfl⟩ := List.mem_map.1 hmem
  exact h.output piece (Array.mem_toList_iff.1 hpiece)

theorem append (h : workspace.Clean globals base) {added : Array Output}
    (hadded : ∀ piece ∈ added, Text.Clean piece.text) :
    Workspace.Clean globals base { workspace with output := workspace.output ++ added } := by
  refine { h with output := fun piece hpiece => ?_ }
  rcases Array.mem_append.1 hpiece with hpiece | hpiece
  · exact h.output piece hpiece
  · exact hadded piece hpiece

theorem write (h : workspace.Clean globals base) {text : String} (htext : Text.Clean text) :
    (workspace.write text).Clean globals base := by
  rw [Workspace.write, Array.push_eq_append]
  refine h.append fun piece hpiece => ?_
  obtain rfl := Array.mem_singleton.1 hpiece
  exact htext

/-- A warning says no more than a form's word and what the reporter knows. -/
theorem check (h : workspace.Clean globals base) (program : Expr) :
    (workspace.check program).Clean globals base := by
  rw [check_eq]
  refine h.append fun piece hpiece => ?_
  obtain ⟨⟨word, span⟩, hmem, rfl⟩ := List.mem_map.1 (List.mem_toArray.1 hpiece)
  have hword : Text.Clean word := by
    obtain ⟨node, -, ⟨hform⟩⟩ := Expr.mem_redefinitions_iff.1 hmem
    obtain ⟨form, hfound⟩ := Option.isSome_iff_exists.1 hform
    have hsame := List.find?_some (p := fun f : Form => f.word == word) hfound
    exact eq_of_beq hsame ▸ form.clean_word
  exact h.reporter.present h.color .warning (by decide)
    (Message.clean_about (by decide) hword (by decide))

theorem running (h : workspace.Clean globals base) {source : String}
    (hsource : Text.Clean source) : (workspace.running source).Clean globals base :=
  { h with reporter := h.reporter.register h.path hsource }

theorem evaluated (h : workspace.Clean globals base) (program : Expr) {store : Store}
    (hstore : store.Clean globals base) :
    (workspace.evaluated program store).Clean globals base := by
  have hchecked := h.check program
  rw [check_eq] at hchecked
  have hprinted : ∀ piece ∈ store.printed.map Output.printed, Text.Clean piece.text := by
    intro piece hpiece
    obtain ⟨line, hline, rfl⟩ := Array.mem_map.1 hpiece
    exact Text.clean_line (hstore.printed line hline)
  exact { hchecked.append hprinted with store := hstore.quiet }

theorem succeeded (h : workspace.Clean globals base) {value : Value}
    (hvalue : value.Clean (Origin.clean globals base).Home) :
    (workspace.succeeded value).Clean globals base :=
  { h with
    results := List.forall_mem_cons.2 ⟨hvalue, h.results⟩
    reporter := h.reporter.remove workspace.path }

/-! ### Tasks -/

variable (limits : Limits)

theorem run (h : workspace.Clean globals base) {source : String} (hsource : Text.Clean source) :
    CleanWork (Value.Clean (Origin.clean globals base).Home) (Workspace.Clean globals base)
      (workspace.run limits source) := by
  have hrunning := h.running hsource
  cases hparse : Expr.parse limits.depth source with
  | error reason =>
      rw [run_of_error hparse]
      exact .error (Stop.clean_of_parse hparse hsource) hrunning
  | ok program =>
      rw [run_of_ok hparse]
      obtain ⟨hstore, hvalue, hreason⟩ :=
        Limits.clean_eval h.store h.scope (Expr.clean_of_parse hparse hsource) limits
      generalize limits.eval program workspace.scope workspace.store.quiet = out at *
      obtain ⟨reason | value, store⟩ := out
      · exact .error (hreason reason rfl) (hrunning.evaluated program hstore)
      · exact .ok (hvalue value rfl)
          ((hrunning.evaluated program hstore).succeeded (hvalue value rfl))

theorem load (h : workspace.Clean globals base) {file : Option (List UInt8)}
    (hsource : ∀ source, workspace.source? (.load file) = some source → Text.Clean source) :
    CleanWork (Value.Clean (Origin.clean globals base).Home) (Workspace.Clean globals base)
      (workspace.load limits file) := by
  unfold Workspace.load
  split
  · exact .error ⟨by decide, by decide⟩ h
  · next hnull =>
      cases file with
      | none =>
          have hmessage : Text.Clean
              (Message.text (Mistake.about "'" workspace.path "' could not be opened")) :=
            Message.clean_about (by decide) h.path (by decide)
          exact .error hmessage h
      | some bytes =>
          simp only
          cases hdecode : Text.decode bytes with
          | error fault => exact .error (Breakdown.clean_undecodable fault) h
          | ok text =>
              refine h.run limits (hsource _ ?_)
              simp only [source?, if_neg hnull, hdecode]

theorem pop (h : workspace.Clean globals base) :
    CleanWork (Value.Clean (Origin.clean globals base).Home) (Workspace.Clean globals base)
      workspace.pop := by
  unfold Workspace.pop
  cases hresults : workspace.results with
  | nil => exact .error ⟨by decide, by decide⟩ h
  | cons value rest =>
      have hvalues := h.results
      rw [hresults] at hvalues
      obtain ⟨hvalue, hrest⟩ := List.forall_mem_cons.1 hvalues
      exact .ok hvalue { h with results := hrest }

theorem showValue (h : workspace.Clean globals base) {value : Value}
    (hvalue : value.Clean (Origin.clean globals base).Home) :
    CleanWork (fun _ => True) (Workspace.Clean globals base)
      (workspace.showValue limits value) := by
  unfold Workspace.showValue
  cases hshown : Value.display limits.depth false value with
  | error cause => exact .error (Breakdown.clean_of_numeric (numeric_of_display hshown)) h
  | ok shown => exact .ok trivial (h.write (Text.clean_line (hvalue.display hshown)))

end Clean

theorem cleanWork_guarded {α : Type} {value : α → Prop} {work : Except Ending α × Workspace}
    (h : CleanWork value (Workspace.Clean globals base) work) :
    CleanWork (fun a? => ∀ a ∈ a?, value a) (Workspace.Clean globals base) (guarded work) := by
  rcases h.cases with ⟨ending, workspace, hending, hclean, rfl⟩ | ⟨a, workspace, ha, hclean, rfl⟩
  · have hsettled : Workspace.Clean globals base
        { workspace with
          reporter := (workspace.reporter.settle ending).reporter
          output := workspace.output ++ settlement workspace.reporter ending } := by
      have hwritten : ∀ piece ∈ settlement workspace.reporter ending, Text.Clean piece.text := by
        intro piece hpiece
        unfold settlement at hpiece
        dsimp only at hpiece
        split at hpiece
        · cases Array.not_mem_empty _ hpiece
        · obtain rfl := Array.mem_singleton.1 hpiece
          exact hclean.reporter.text_settle hclean.color hending
      exact
        { hclean.append hwritten with
          reporter := hclean.reporter.settle ending
          color := (workspace.reporter.color_act (.settle ending)).trans hclean.color }
    rw [guarded_error_eq]
    cases hleaving : (workspace.reporter.settle ending).leaving with
    | none => exact .ok nofun hsettled
    | some other => exact .error (hending.leaving _ other hleaving) hsettled
  · refine .ok ?_ hclean
    rintro _ ⟨rfl⟩
    exact ha

/-! ### Sessions -/

namespace Clean

variable {workspace : Workspace} (limits : Limits)

theorem attempt (h : workspace.Clean globals base) {task : Task}
    (hsource : ∀ source, workspace.source? task = some source → Text.Clean source) :
    CleanWork (fun _ => True) (Workspace.Clean globals base) (workspace.attempt limits task) := by
  cases task with
  | run source => exact (h.run limits (hsource source rfl)).map fun _ _ => trivial
  | load file => exact (h.load limits hsource).map fun _ _ => trivial
  | pop => exact h.pop.map fun _ _ => trivial
  | check program => exact .ok trivial (h.check program)

theorem take (h : workspace.Clean globals base) {step : Step}
    (hsource : ∀ source, workspace.source? step.task = some source → Text.Clean source) :
    (workspace.take limits step).Clean globals base := by
  have hattempt := h.attempt limits hsource
  unfold Workspace.take
  dsimp only
  split
  · exact (cleanWork_guarded hattempt).left
  · exact hattempt.left

/-- What a session says is clean if the texts are that are run in it. -/
theorem takeAll (h : workspace.Clean globals base) {steps : List Step}
    (hsources : ∀ step ∈ steps, ∀ source, workspace.source? step.task = some source →
      Text.Clean source) :
    (workspace.takeAll limits steps).Clean globals base := by
  induction steps generalizing workspace with
  | nil => exact h
  | cons step rest ih =>
      obtain ⟨hfirst, hrest⟩ := List.forall_mem_cons.1 hsources
      refine ih (h.take limits hfirst) ?_
      rw [source?_congr (place_take limits workspace step).1]
      exact hrest

end Clean

end Workspace

/-! ### The console -/

/-- Whether everything is clean that a console can come to say without colour. -/
structure Console.Clean (globals : ScopeId) (base : Nat) (console : Console) : Prop where
  workspace : console.workspace.Clean globals base
  pending : Text.Clean console.pending
  prompt : Text.Clean console.prompt

theorem Text.clean_strip {text : String} (h : Clean text) : Clean (strip text) := by
  refine clean_of_subset (fun c hmem => ?_) h
  rw [strip, String.toList_ofList, List.mem_reverse] at hmem
  have htrimmed := (List.dropWhile_sublist _).subset hmem
  exact (List.dropWhile_sublist _).subset (List.mem_reverse.1 htrimmed)

namespace Console

variable {globals : ScopeId} {base : Nat} (limits : Limits)

section

variable {workspace : Workspace} (h : workspace.Clean globals base) {text : String}
  (htext : Text.Clean text)
include h htext

theorem cleanWork_evaluate :
    CleanWork (fun _ => True) (Workspace.Clean globals base) (evaluate limits workspace text) := by
  unfold evaluate
  rcases (h.run limits htext).cases with
    ⟨ending, _, hending, hleft, hrun⟩ | ⟨_, _, -, hleft, hrun⟩
  · rw [hrun]
    exact .error hending hleft
  · rw [hrun]
    simp only
    rcases hleft.pop.cases with ⟨ending, _, hending, hleft, hpop⟩ | ⟨value, _, hvalue, hleft, hpop⟩
    · rw [hpop]
      exact .error hending hleft
    · rw [hpop]
      exact hleft.showValue limits hvalue

theorem cleanWork_submit :
    CleanWork (fun _ => True) (Workspace.Clean globals base) (submit limits workspace text) := by
  cases hsilent : isSilent text with
  | true =>
      rw [submit, if_pos hsilent]
      exact .ok trivial h
  | false =>
      rw [submit_of_program hsilent]
      exact (Workspace.cleanWork_guarded (cleanWork_evaluate limits h htext)).map fun _ _ => trivial

end

-- the kernel is slow with long texts, and quick with their lines
theorem clean_helpText : Text.Clean helpText := by
  unfold helpText
  iterate 6 refine Text.clean_append.2 ⟨?_, by decide +kernel⟩
  decide +kernel

theorem clean_new {workspace : Workspace} (h : workspace.Clean globals base) :
    (new workspace).Clean globals base := by
  have hprompt : Text.Clean newPrompt := by decide
  exact ⟨h, Text.clean_empty, hprompt⟩

namespace Clean

variable {console : Console} {line : String}

theorem write (h : console.Clean globals base) {text : String} (htext : Text.Clean text) :
    (console.write text).Clean globals base :=
  { h with workspace := h.workspace.write htext }

theorem entry (h : console.Clean globals base) (hline : Text.Clean line) :
    Text.Clean (console.entry line) := by
  unfold Console.entry
  split
  · exact Text.clean_strip hline
  · exact Text.clean_append.2 ⟨h.pending, hline⟩

theorem feed (h : console.Clean globals base) (hline : Text.Clean line) :
    CleanWork (fun _ => True) (Console.Clean globals base) (console.feed limits line) := by
  have hentry := h.entry hline
  have hfed := fed limits console line
  generalize console.feed limits line = result at hfed ⊢
  cases hfed with
  | blank _ _ => exact .ok trivial h
  | help _ _ => exact .ok trivial (h.write clean_helpText)
  | exit _ _ => exact .ok trivial h
  | endOfInput _ _ => exact .ok trivial (h.write (by decide))
  | kept _ _ =>
      have hprompt : Text.Clean openPrompt := by decide
      exact .ok trivial ⟨h.workspace, Text.clean_line hentry, hprompt⟩
  | submitted _ _ _ =>
      have hsubmit := cleanWork_submit limits h.workspace hentry
      rcases hsubmit.cases with ⟨ending, _, hending, hleft, heq⟩ | ⟨_, _, -, hleft, heq⟩
      · rw [heq]
        exact .error hending (clean_new hleft)
      · rw [heq]
        exact .ok trivial (clean_new hleft)

/-- What the console says is clean if the lines are that it is given. -/
theorem converse (h : console.Clean globals base) {lines : List String}
    (hlines : ∀ line ∈ lines, Text.Clean line) :
    CleanWork (fun _ => True) (Console.Clean globals base) (console.converse limits lines) := by
  have hfeed : ∀ {console : Console} {line : String}, console.Clean globals base →
      Text.Clean line → CleanWork (fun _ => True) (Console.Clean globals base)
        ((console.write console.prompt).feed limits line) :=
    fun h hline => (h.write h.prompt).feed limits hline
  induction lines generalizing console with
  | nil =>
      unfold Console.converse
      have hend : Text.Clean "EOF" := by decide
      rcases (hfeed h hend).cases with
        ⟨ending, _, hending, hleft, hfed⟩ | ⟨ended, _, -, hleft, hfed⟩
      · rw [hfed]
        exact .error hending hleft
      · rw [hfed]
        cases ended with
        | false => exact .error trivial hleft
        | true => exact .ok trivial hleft
  | cons line rest ih =>
      obtain ⟨hline, hrest⟩ := List.forall_mem_cons.1 hlines
      unfold Console.converse
      rcases (hfeed h hline).cases with
        ⟨ending, _, hending, hleft, hfed⟩ | ⟨ended, _, -, hleft, hfed⟩
      · rw [hfed]
        exact .error hending hleft
      · rw [hfed]
        cases ended with
        | false => exact ih hleft hrest
        | true => exact .ok trivial hleft

end Clean

end Console

end CallLang
