/-
  CallLang/Proofs/Unpainted.lean
  ==============================
  **Colour only decorates.**

  Work that is done with colour and without comes to the same, and what is written with colour is
  what is written without, with renditions in it.  Where no text that is given has an escape
  character, there is none in what is written without colour.  So whoever removes the renditions
  gets exactly what is written without colour: in messages, in reports, in sessions and from the
  program as a whole.
-/
import CallLang.Proofs.CleanSessions

namespace CallLang

/-! ### Files and lines -/

namespace Text

end Text

/-! ### The program as a whole -/

/-- Whether all texts are clean that are taken up in the work on a request. -/
def Request.Clean (directory : Directory) (input : String) : Request → Prop
  | .evaluate (.text source) => Text.Clean source
  | .runFile path => Text.Clean path ∧ ∀ bytes text, directory.read? path = some bytes →
      Text.decode bytes = .ok text → Text.escape ∉ text
  | .console => Text.Clean input
  | _ => True

theorem CommandLine.clean_helpText : Text.Clean helpText := by
  unfold helpText
  iterate 6 refine Text.clean_append.2 ⟨?_, by decide +kernel⟩
  decide +kernel

namespace Program

variable (limits : Limits)

end Program

/-! ### Without renditions -/

/-- A piece of output without the renditions in it. -/
def Output.unpainted : Output → Output
  | .printed line => .printed (Text.unpainted line)
  | .written text => .written (Text.unpainted text)

/-- A workspace without colour, and without the renditions in its output. -/
def Workspace.unpainted (workspace : Workspace) : Workspace :=
  { workspace.withColor false with output := workspace.output.map Output.unpainted }

/-- An outcome without the renditions in what the program has said. -/
def Outcome.unpainted (outcome : Outcome) : Outcome :=
  { outcome with stdout := Text.unpainted outcome.stdout }

theorem Output.Decorates.unpainted {painted plain : Output} (h : painted.Decorates plain)
    (hclean : Text.Clean plain.text) : painted.unpainted = plain := by
  cases h with
  | printed line =>
      have hline : Text.Clean line := (Text.clean_append.1 hclean).1
      exact congrArg Output.printed ((Text.Decorates.refl line).unpainted hline)
  | written h => exact congrArg Output.written (h.unpainted hclean)

theorem Workspace.Decorates.unpainted {painted plain : Workspace} (h : painted.Decorates plain)
    (hclean : ∀ piece ∈ plain.output, Text.Clean piece.text) : painted.unpainted = plain := by
  have houtput : painted.output.map Output.unpainted = plain.output := by
    have hpieces := h.output
    rw [← Array.toList_inj, Array.toList_map]
    replace hclean : ∀ piece ∈ plain.output.toList, Text.Clean piece.text := fun piece hpiece =>
      hclean piece (Array.mem_toList_iff.1 hpiece)
    generalize painted.output.toList = pieces, plain.output.toList = pieces' at hpieces hclean ⊢
    induction hpieces with
    | nil => rfl
    | cons hfirst _ ih =>
        obtain ⟨hclean, hrest⟩ := List.forall_mem_cons.1 hclean
        rw [List.map_cons, hfirst.unpainted hclean, ih hrest]
  obtain ⟨reporter, hpainted, hplain⟩ := h.reporter
  have hreporter : painted.reporter.withColor false = plain.reporter := by
    rw [hpainted, hplain]
    rfl
  rw [Workspace.unpainted, houtput, Workspace.withColor, hreporter, h.path, h.store, h.scope,
    h.results]

theorem Outcome.Decorates.unpainted {painted plain : Outcome} (h : painted.Decorates plain)
    (hclean : Text.Clean plain.stdout) : painted.unpainted = plain := by
  obtain ⟨status, stdout, stderr⟩ := plain
  obtain ⟨hstatus, hstdout, hstderr⟩ := h
  rw [Outcome.unpainted, hstatus, hstderr, hstdout.unpainted hclean]

end CallLang
