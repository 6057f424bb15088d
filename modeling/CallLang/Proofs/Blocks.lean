/-
  CallLang/Proofs/Blocks.lean
  ===========================
  **What the console does with lines.**

  The console neither loses nor repeats a line, nor does it change their order.  The
  lines that it has taken can be cut into blocks, one for each text that it has
  submitted, and the lines of the program that is still open (`Cut`).  A block ends
  with the first line that leaves no call open.  It does not matter what becomes of
  a submitted program.

  Every line keeps such a cut (`Cut.feed`), whether it is taken inside of an open
  program or outside.
-/
import CallLang.Console
import CallLang.Process
import Mathlib

namespace CallLang

/-! ### One line -/

/-- A line is blank, or a command, or a program without the blanks around it. -/
theorem Command.ofLine_cases (line : String) :
    (Text.strip line = "" ∧ ofLine line = .nothing) ∨ ofLine line = .help ∨
      ofLine line = .exit ∨ ofLine line = .endOfInput ∨
      (Text.strip line ≠ "" ∧ ofLine line = .program (Text.strip line)) := by
  fun_cases ofLine line with
  | case1 text hnil => exact .inl ⟨String.toList_eq_nil_iff.1 hnil, rfl⟩
  | case2 => exact .inr (.inl rfl)
  | case3 text rest hchars =>
      refine .inr (.inr (.inr (.inr ⟨fun hnil => ?_, rfl⟩)))
      cases hchars.symm.trans (String.toList_eq_nil_iff.2 hnil)
  | case4 => exact .inr (.inl rfl)
  | case5 => exact .inr (.inr (.inl rfl))
  | case6 => exact .inr (.inr (.inr (.inl rfl)))
  | case7 text hchars =>
      exact .inr (.inr (.inr (.inr ⟨fun hnil => hchars (String.toList_eq_nil_iff.2 hnil), rfl⟩)))

theorem goesOn_empty : goesOn "" = false := by
  simp [goesOn, leavesOpen]

namespace Console

/-- The text in hand once a line is added. -/
def entry (console : Console) (line : String) : String :=
  if console.pending = "" then Text.strip line else console.pending ++ line

/-- What taking a line does. -/
inductive Fed (limits : Limits) (console : Console) (line : String) :
    Except Ending Bool × Console → Prop where
  | blank (hnew : console.pending = "") (hblank : Text.strip line = "") :
      Fed limits console line (.ok false, console)
  | help (hnew : console.pending = "") (hcommand : Command.ofLine line = .help) :
      Fed limits console line (.ok false, console.write helpText)
  | exit (hnew : console.pending = "") (hcommand : Command.ofLine line = .exit) :
      Fed limits console line (.ok true, console)
  | endOfInput (hnew : console.pending = "") (hcommand : Command.ofLine line = .endOfInput) :
      Fed limits console line (.ok true, console.write "\n")
  | kept (hprogram : console.pending = "" → Command.ofLine line = .program (console.entry line))
      (hopen : goesOn (console.entry line) = true) :
      Fed limits console line
        (.ok false, { console with pending := console.entry line ++ "\n", prompt := openPrompt })
  | submitted
      (hprogram : console.pending = "" → Command.ofLine line = .program (console.entry line))
      (hsome : console.entry line ≠ "") (hclosed : goesOn (console.entry line) = false) :
      Fed limits console line
        ((submit limits console.workspace (console.entry line)).1.map fun _ => false,
          { workspace := (submit limits console.workspace (console.entry line)).2
            pending := ""
            prompt := newPrompt })

theorem feed_of_open {limits : Limits} {console : Console} (hopen : console.pending ≠ "")
    (line : String) :
    console.feed limits line =
      ((console.enter limits line).1.map fun _ => false, (console.enter limits line).2) := by
  rw [feed, if_neg (by rwa [String.isEmpty_iff])]
  dsimp only
  rcases console.enter limits line with ⟨_ | _, console⟩ <;> rfl

theorem feed_of_program {limits : Limits} {console : Console} {line text : String}
    (hnew : console.pending = "") (hline : Command.ofLine line = .program text) :
    console.feed limits line =
      ((console.enter limits text).1.map fun _ => false, (console.enter limits text).2) := by
  rw [feed, if_pos (String.isEmpty_iff.2 hnew), hline]
  dsimp only
  rcases console.enter limits text with ⟨_ | _, console⟩ <;> rfl

theorem fed (limits : Limits) (console : Console) (line : String) :
    Fed limits console line (console.feed limits line) := by
  -- both ways into a program end in the same text
  have hentered : ∀ text, console.pending ++ text = console.entry line →
      (console.pending = "" → Command.ofLine line = .program (console.entry line)) →
      console.entry line ≠ "" → Fed limits console line
        ((console.enter limits text).1.map fun _ => false, (console.enter limits text).2) := by
    intro text htext hprogram hsome
    rw [enter, htext]
    cases hopen : goesOn (console.entry line) with
    | true => exact .kept hprogram hopen
    | false => exact .submitted hprogram hsome hopen
  by_cases hnew : console.pending = ""
  · have hentry : console.entry line = Text.strip line := if_pos hnew
    obtain ⟨hblank, hline⟩ | hline | hline | hline | ⟨hsome, hline⟩ := Command.ofLine_cases line
    · rw [feed, if_pos (String.isEmpty_iff.2 hnew), hline]
      exact .blank hnew hblank
    · rw [feed, if_pos (String.isEmpty_iff.2 hnew), hline]
      exact .help hnew hline
    · rw [feed, if_pos (String.isEmpty_iff.2 hnew), hline]
      exact .exit hnew hline
    · rw [feed, if_pos (String.isEmpty_iff.2 hnew), hline]
      exact .endOfInput hnew hline
    · rw [feed_of_program hnew hline]
      exact hentered _ (by rw [hnew, hentry, String.empty_append]) (fun _ => hentry ▸ hline)
        (hentry ▸ hsome)
  · have hentry : console.entry line = console.pending ++ line := if_neg hnew
    rw [feed_of_open hnew line]
    refine hentered _ hentry.symm (fun hpending => absurd hpending hnew) ?_
    rw [hentry]
    intro hnil
    exact hnew (String.append_eq_empty_iff.1 hnil).1

/-! ### Many lines -/

/-- The console after some lines, whatever becomes of the programs among them. -/
def after (limits : Limits) (console : Console) (lines : List String) : Console :=
  lines.foldl (fun console line => (console.feed limits line).2) console

/-- Whether something holds of every line as it is taken: of the console before it, the line,
    and what taking the line does. -/
def Each (limits : Limits) (holds : Console → String → Except Ending Bool × Console → Prop) :
    Console → List String → Prop
  | _, [] => True
  | console, line :: rest =>
    let result := console.feed limits line
    holds console line result ∧ Each limits holds result.2 rest

/-- Whether no line is one of some commands, taken outside of an open program. -/
def Avoids (limits : Limits) (commands : List Command) : Console → List String → Prop :=
  Each limits fun console line _ => console.pending = "" → Command.ofLine line ∉ commands

/-! ### Blocks -/

/-- The text of the lines of a program.  Blanks around the first line do not count. -/
def joined : List String → String
  | [] => ""
  | first :: rest => "\n".intercalate (Text.strip first :: rest)

theorem joined_singleton (line : String) : joined [line] = Text.strip line := by
  rw [joined, String.intercalate_singleton]

theorem joined_append {lines : List String} (h : lines ≠ []) (line : String) :
    joined (lines ++ [line]) = joined lines ++ "\n" ++ line := by
  obtain ⟨first, rest, rfl⟩ := List.exists_cons_of_ne_nil h
  rw [List.cons_append, joined, ← List.cons_append,
    String.intercalate_append_of_ne_nil (List.cons_ne_nil _ _) (List.cons_ne_nil _ _),
    String.intercalate_singleton, joined]

/-- Whether a program goes on after each of some lines. -/
def LeftOpen (lines : List String) : Prop :=
  ∀ front, front <+: lines → front ≠ [] → goesOn (joined front) = true

/-- Whether lines are those of one program: it goes on after each of them but the last. -/
structure Block (lines : List String) : Prop where
  nonempty : lines ≠ []
  closed : goesOn (joined lines) = false
  leftOpen : ∀ front, front <+: lines → front ≠ [] → front ≠ lines → goesOn (joined front) = true

/-- How the lines that a console has taken fall into blocks and the lines of an open
    program.  The texts of the blocks have been submitted in their order, except that a
    blank line is skipped; the open program is pending. -/
structure Cut (limits : Limits) (workspace : Workspace) (lines : List String)
    (blocks : List (List String)) (opened : List String) (console : Console) : Prop where
  lines_eq : lines = blocks.flatten ++ opened
  block : ∀ block ∈ blocks, Block block
  leftOpen : LeftOpen opened
  workspace_eq : console.workspace =
    ((blocks.map joined).filter (· ≠ "")).foldl
      (fun workspace text => (submit limits workspace text).2) workspace
  pending_eq : console.pending = if opened = [] then "" else joined opened ++ "\n"
  prompt_eq : console.prompt = if console.pending = "" then "> " else ". "

section

variable {limits : Limits} {workspace : Workspace} {lines opened : List String}
  {blocks : List (List String)} {console : Console}

theorem LeftOpen.append {line : String} (h : LeftOpen lines)
    (hopen : goesOn (joined (lines ++ [line])) = true) : LeftOpen (lines ++ [line]) := by
  intro front hfront hsome
  rcases List.prefix_concat_iff.1 hfront with rfl | hfront
  · exact hopen
  · exact h front hfront hsome

theorem LeftOpen.block {line : String} (h : LeftOpen lines)
    (hclosed : goesOn (joined (lines ++ [line])) = false) : Block (lines ++ [line]) where
  nonempty := by simp
  closed := hclosed
  leftOpen := by
    intro front hfront hsome hproper
    rcases List.prefix_concat_iff.1 hfront with rfl | hfront
    · exact absurd rfl hproper
    · exact h front hfront hsome

theorem leftOpen_nil : LeftOpen [] := fun _ hfront hsome =>
  absurd (List.prefix_nil.1 hfront) hsome

namespace Cut

theorem new (limits : Limits) (workspace : Workspace) :
    Cut limits workspace [] [] [] (Console.new workspace) where
  lines_eq := rfl
  block := nofun
  leftOpen := leftOpen_nil
  workspace_eq := rfl
  pending_eq := rfl
  prompt_eq := rfl

/-- Nothing is pending exactly if no program is open. -/
theorem pending_eq_empty_iff (h : Cut limits workspace lines blocks opened console) :
    console.pending = "" ↔ opened = [] := by
  rw [h.pending_eq]
  split
  · simp_all
  · simp_all

theorem entry_eq (h : Cut limits workspace lines blocks opened console) (line : String) :
    console.entry line = joined (opened ++ [line]) := by
  by_cases hnew : opened = []
  · rw [entry, if_pos (h.pending_eq_empty_iff.2 hnew), hnew]
    exact (joined_singleton line).symm
  · rw [entry, if_neg (mt h.pending_eq_empty_iff.1 hnew), h.pending_eq, if_neg hnew,
      joined_append hnew]

/-- A line that leaves no call open ends a block. -/
theorem append_block {line : String} {console' : Console}
    (h : Cut limits workspace lines blocks opened console)
    (hclosed : goesOn (joined (opened ++ [line])) = false)
    (hworkspace : console'.workspace =
      if joined (opened ++ [line]) = "" then console.workspace
      else (submit limits console.workspace (joined (opened ++ [line]))).2)
    (hpending : console'.pending = "") (hprompt : console'.prompt = "> ") :
    Cut limits workspace (lines ++ [line]) (blocks ++ [opened ++ [line]]) [] console' where
  lines_eq := by simp [h.lines_eq]
  block := by
    intro block hmem
    rcases List.mem_append.1 hmem with hmem | hmem
    · exact h.block block hmem
    · exact List.mem_singleton.1 hmem ▸ h.leftOpen.block hclosed
  leftOpen := leftOpen_nil
  workspace_eq := by
    rw [hworkspace, List.map_append, List.filter_append, List.foldl_append, ← h.workspace_eq]
    by_cases hblank : joined (opened ++ [line]) = "" <;> simp [hblank]
  pending_eq := hpending
  prompt_eq := by rw [hprompt, if_pos hpending]

/-- One more line keeps the lines cut into blocks. -/
theorem feed {line : String} (h : Cut limits workspace lines blocks opened console)
    (hline : console.pending = "" → Command.ofLine line ∉ [.help, .exit, .endOfInput]) :
    ∃ blocks opened,
      Cut limits workspace (lines ++ [line]) blocks opened (console.feed limits line).2 := by
  have hentry := h.entry_eq line
  have hfed := fed limits console line
  generalize console.feed limits line = result at hfed
  cases hfed with
  | blank hnew hblank =>
      obtain rfl := h.pending_eq_empty_iff.1 hnew
      have hjoined : joined ([] ++ [line]) = "" := (joined_singleton line).trans hblank
      refine ⟨_, _, h.append_block ?_ (if_pos hjoined).symm hnew ?_⟩
      · rw [hjoined, goesOn_empty]
      · rw [h.prompt_eq, if_pos hnew]
  | help hnew hcommand => exact absurd (by simp [hcommand]) (hline hnew)
  | exit hnew hcommand => exact absurd (by simp [hcommand]) (hline hnew)
  | endOfInput hnew hcommand => exact absurd (by simp [hcommand]) (hline hnew)
  | kept _ hopen =>
      rw [hentry] at hopen ⊢
      have hpending : joined (opened ++ [line]) ++ "\n" ≠ "" := by simp
      exact ⟨blocks, opened ++ [line], {
        lines_eq := by rw [h.lines_eq, List.append_assoc]
        block := h.block
        leftOpen := h.leftOpen.append hopen
        workspace_eq := h.workspace_eq
        pending_eq := (if_neg (by simp)).symm
        prompt_eq := (if_neg hpending).symm }⟩
  | submitted _ hsome hclosed =>
      rw [hentry] at hsome hclosed ⊢
      exact ⟨_, _, h.append_block hclosed (if_neg hsome).symm rfl rfl⟩

end Cut

/-- Any lines that are no commands keep the lines cut into blocks. -/
theorem Cut.after {rest : List String} (h : Cut limits workspace lines blocks opened console)
    (hrest : Avoids limits [.help, .exit, .endOfInput] console rest) :
    ∃ blocks opened,
      Cut limits workspace (lines ++ rest) blocks opened (console.after limits rest) := by
  induction rest generalizing lines blocks opened console with
  | nil => exact ⟨blocks, opened, by rwa [List.append_nil]⟩
  | cons line rest ih =>
      obtain ⟨blocks, opened, hcut⟩ := h.feed hrest.1
      rw [List.append_cons]
      exact ih hcut hrest.2

/-- All lines that the console has taken fall into the blocks that it has submitted and the
    lines of the open program, in their order, as long as none of them is a command.
    Nothing else has changed the workspace, and the prompt tells whether a program is open. -/
theorem exists_cut (limits : Limits) (workspace : Workspace) (lines : List String)
    (h : Avoids limits [.help, .exit, .endOfInput] (Console.new workspace) lines) :
    ∃ blocks opened,
      Cut limits workspace lines blocks opened ((Console.new workspace).after limits lines) :=
  (Cut.new limits workspace).after h

/-- The word `exit` inside of an open program belongs to the program. -/
theorem exists_cut_open_exit :
    let lines := ["  f(1, # (", "exit", ")", " ", "2"]
    let console := Console.new
      { path := typedPath, store := Process.fresh.store, scope := Process.fresh.globals,
        reporter := .new false false, results := [], output := #[] }
    Avoids ⟨9, 9⟩ [.help, .exit, .endOfInput] console lines ∧
      ∃ blocks opened, Cut ⟨9, 9⟩ console.workspace lines blocks opened
        (console.after ⟨9, 9⟩ lines) := by
  intro lines console
  have hpending : (console.feed ⟨9, 9⟩ "  f(1, # (").2.pending = "f(1, # (\n" := by cbv
  have hopen : (console.feed ⟨9, 9⟩ "  f(1, # (").2.pending ≠ "" := by simp [hpending]
  have havoids : Avoids ⟨9, 9⟩ [.help, .exit, .endOfInput] console lines :=
    ⟨fun _ => by decide, fun hnew => absurd hnew hopen, fun _ => by decide, fun _ => by decide,
      fun _ => by decide, trivial⟩
  exact ⟨havoids, exists_cut ⟨9, 9⟩ console.workspace lines havoids⟩

end

end Console

end CallLang
