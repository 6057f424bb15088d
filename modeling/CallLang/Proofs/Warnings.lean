/-
  CallLang/Proofs/Warnings.lean
  =============================
  **Warnings about redefinitions.**

  A definition of a form's word is never of any use, so a run warns about all of them
  before it evaluates anything.  The warnings come in the order of the text, for a tree
  lists its nodes in this order: the nodes below a node lie within it, and those of one
  part stand before those of the next.

  A function may define the word of a form when it is called, which can be in a later
  run.  The definition is a node of some text that has been run all the same, and it was
  warned about when this text was.
-/
import CallLang.Proofs.Blame
import CallLang.Proofs.Bookkeeping
import CallLang.Proofs.Locations
import CallLang.Proofs.Spans

namespace CallLang

/-! ### The nodes of a tree, one after another -/

namespace Expr

mutual

/-- The nodes of a tree, every node before those below it and those of one part before
    those of the next. -/
def nodes : Expr → List Expr
  | .call operator arguments span =>
    .call operator arguments span :: (operator.nodes ++ Expr.allNodes arguments)
  | e => [e]

def allNodes : List Expr → List Expr
  | [] => []
  | expr :: rest => expr.nodes ++ Expr.allNodes rest

end

theorem allNodes_eq (es : List Expr) : allNodes es = es.flatMap nodes := by
  induction es with
  | nil => rfl
  | cons e rest ih => rw [allNodes, ih, List.flatMap_cons]

theorem nodes_eq (tree : Expr) : tree.nodes = tree :: tree.children.flatMap nodes := by
  cases tree with
  | call operator arguments span =>
      rw [nodes, allNodes_eq, children, List.flatMap_cons]
  | _ => rfl

theorem sizeOf_lt_of_mem_children {tree child : Expr} (h : child ∈ tree.children) :
    sizeOf child < sizeOf tree := by
  cases tree with
  | call operator arguments span =>
      rw [call.sizeOf_spec]
      rcases List.mem_cons.1 h with rfl | hmem
      · omega
      · have hlt := List.sizeOf_lt_of_mem hmem
        omega
  | _ => cases h

/-- What holds of a node if it holds of all nodes directly below it holds of every tree. -/
theorem of_children {p : Expr → Prop}
    (h : ∀ tree, (∀ child ∈ tree.children, p child) → p tree) (tree : Expr) : p tree :=
  h tree fun child hchild =>
    have := sizeOf_lt_of_mem_children hchild
    of_children h child
termination_by sizeOf tree

theorem mem_nodes_iff {tree node : Expr} : node ∈ tree.nodes ↔ tree.HasNode node := by
  constructor
  · induction tree using of_children with
    | h tree ih =>
        intro hmem
        rw [nodes_eq] at hmem
        rcases List.mem_cons.1 hmem with rfl | hmem
        · exact hasNode_refl node
        · obtain ⟨child, hchild, hbelow⟩ := List.mem_flatMap.1 hmem
          exact Relation.ReflTransGen.head hchild (ih child hchild hbelow)
  · intro hnode
    induction hnode using Relation.ReflTransGen.head_induction_on with
    | refl =>
        rw [nodes_eq]
        exact List.mem_cons_self
    | head hchild _ ih =>
        rw [nodes_eq]
        exact List.mem_cons_of_mem _ (List.mem_flatMap.2 ⟨_, hchild, ih⟩)

theorem EachNode.child {p : Expr → Prop} {tree child : Expr} (h : tree.EachNode p)
    (hchild : child ∈ tree.children) : child.EachNode p :=
  fun node hnode => h node (Relation.ReflTransGen.head hchild hnode)

/-! ### Places -/

/-- Whether the parts of a node lie within it, one behind the other. -/
structure Nested (node : Expr) : Prop where
  proper : node.span.start < node.span.stop
  within : ∀ child ∈ node.children,
    node.span.start ≤ child.span.start ∧ child.span.stop ≤ node.span.stop
  ordered : node.children.Pairwise fun child other => child.span.stop < other.span.start

theorem nested_of_parse {limit : Nat} {source : String} {program : Expr}
    (h : Expr.parse limit source = .ok program) : program.EachNode Nested := by
  intro node hnode
  have hread := readIn_of_parse h
  obtain ⟨hwithin, hordered⟩ := (hread node hnode).laidOut.ordered fun child hchild =>
    (hread child (hnode.child hchild)).standsIn.start_lt
  exact ⟨(hread node hnode).standsIn.start_lt, hwithin, hordered⟩

theorem HasNode.within {tree node : Expr} (hnode : tree.HasNode node) (h : tree.EachNode Nested) :
    tree.span.start ≤ node.span.start ∧ node.span.stop ≤ tree.span.stop := by
  induction hnode with
  | refl => exact ⟨Nat.le_refl _, Nat.le_refl _⟩
  | tail hbefore hchild ih =>
      obtain ⟨hstart, hstop⟩ := (h _ hbefore).within _ hchild
      exact ⟨Nat.le_trans ih.1 hstart, Nat.le_trans hstop ih.2⟩

/-! ### Redefinitions -/

/-- Whether a node defines the word of a form, which stands at a place: it is a call of the
    word for definitions, and the word of a form is the first argument. -/
inductive Redefines : Expr → String → Span → Prop where
  | define {word : String} {place span whole : Span} {rest : List Expr}
      (hform : (Form.ofWord? word).isSome) :
      Redefines (.call (.name Form.define.word place) (.name word span :: rest) whole) word span

variable {tree node : Expr} {word : String} {span : Span}

theorem redefinition?_eq_some_iff :
    redefinition? node = some (word, span) ↔ node.Redefines word span := by
  constructor
  · intro h
    unfold redefinition? at h
    split at h
    · next text place other found rest whole =>
        split at h
        · next hword =>
            rw [Bool.and_eq_true, decide_eq_true_iff] at hword
            obtain ⟨rfl, hform⟩ := hword
            cases h
            exact .define hform
        · cases h
    · cases h
  · rintro ⟨hform⟩
    simp [redefinition?, hform]

theorem Redefines.child (h : node.Redefines word span) : .name word span ∈ node.children := by
  cases h with
  | define hform => exact List.mem_cons_of_mem _ List.mem_cons_self

theorem allRedefinitions_eq (es : List Expr) :
    allRedefinitions es = es.flatMap redefinitions := by
  induction es with
  | nil => rfl
  | cons e rest ih => rw [allRedefinitions, ih, List.flatMap_cons]

theorem redefinitions_eq (tree : Expr) :
    tree.redefinitions = (redefinition? tree).toList ++ tree.children.flatMap redefinitions := by
  cases tree with
  | call operator arguments span =>
      rw [redefinitions, allRedefinitions_eq, children, List.flatMap_cons, List.append_assoc]
  | _ => rfl

/-- Every node is looked at once. -/
theorem redefinitions_eq_filterMap (tree : Expr) :
    tree.redefinitions = tree.nodes.filterMap redefinition? := by
  induction tree using of_children with
  | h tree ih =>
      have hbelow : tree.children.flatMap redefinitions =
          (tree.children.flatMap nodes).filterMap redefinition? := by
        rw [List.filterMap_flatMap]
        exact List.flatMap_congr ih
      rw [redefinitions_eq, nodes_eq, List.filterMap_cons, hbelow]
      cases redefinition? tree <;> rfl

theorem mem_redefinitions_iff :
    (word, span) ∈ tree.redefinitions ↔ ∃ node, tree.HasNode node ∧ node.Redefines word span := by
  rw [redefinitions_eq_filterMap, List.mem_filterMap]
  simp only [mem_nodes_iff, redefinition?_eq_some_iff]

theorem hasNode_of_mem_redefinitions {redefinition : String × Span}
    (h : redefinition ∈ tree.redefinitions) :
    tree.HasNode (.name redefinition.1 redefinition.2) := by
  obtain ⟨node, hnode, hredefines⟩ := mem_redefinitions_iff.1 h
  exact hnode.child hredefines.child

/-- A node that redefines a word does so before all nodes below it that do: neither the operator
    nor the word itself has any nodes below it. -/
theorem Redefines.before (h : tree.Redefines word span) (hnested : tree.EachNode Nested)
    {redefinition : String × Span} (hmem : redefinition ∈ tree.children.flatMap redefinitions) :
    span.start < redefinition.2.start := by
  have hproper := (hnested.child h.child _ (hasNode_refl _)).proper
  cases h with
  | @define _ place _ whole rest hform =>
      obtain ⟨child, hchild, hbelow⟩ := List.mem_flatMap.1 hmem
      rcases List.mem_cons.1 hchild with rfl | hargument
      · cases hbelow
      rcases List.mem_cons.1 hargument with rfl | hrest
      · cases hbelow
      have hordered := (hnested _ (hasNode_refl _)).ordered
      have hbehind : span.stop < child.span.start :=
        (List.pairwise_cons.1 (List.pairwise_cons.1 hordered).2).1 child hrest
      have hwithin := (hasNode_of_mem_redefinitions hbelow).within (hnested.child hchild)
      exact Nat.lt_of_lt_of_le (Nat.lt_trans hproper hbehind) hwithin.1

/-- Redefinitions are listed in the order of the text. -/
theorem redefinitions_ordered (h : tree.EachNode Nested) :
    tree.redefinitions.Pairwise fun first second => first.2.start < second.2.start := by
  induction tree using of_children with
  | h tree ih =>
      have hbelow : (tree.children.flatMap redefinitions).Pairwise
          fun first second => first.2.start < second.2.start := by
        rw [List.pairwise_flatMap]
        refine ⟨fun child hchild => ih child hchild (h.child hchild), ?_⟩
        refine (h tree (hasNode_refl tree)).ordered.imp_of_mem ?_
        intro child other hchild hother hbehind first hfirst second hsecond
        have hfirst := hasNode_of_mem_redefinitions hfirst
        have hsecond := hasNode_of_mem_redefinitions hsecond
        have hstop := (hfirst.within (h.child hchild)).2
        have hstart := (hsecond.within (h.child hother)).1
        have hproper := (h.child hchild _ hfirst).proper
        exact Nat.lt_of_lt_of_le (Nat.lt_trans (Nat.lt_of_lt_of_le hproper hstop) hbehind) hstart
      rw [redefinitions_eq]
      cases hredefinition : redefinition? tree with
      | none => exact hbelow
      | some redefinition =>
          exact List.pairwise_cons.2 ⟨fun other hother =>
            (redefinition?_eq_some_iff.1 hredefinition).before h hother, hbelow⟩

end Expr

/-! ### What a run warns about -/

/-- What is said about a definition of a form's word at a place. -/
def redefinitionComplaint (word : String) (span : Span) : Complaint :=
  .located .general
    (Mistake.about "'" word "' is a special form, calls to it will not use this definition")
    (some span.start) (some span.stop)

namespace Workspace

variable {limits : Limits} {workspace : Workspace} {source : String} {program : Expr}

/-- The warning about a redefinition in a text that is being run. -/
def redefinitionWarning (workspace : Workspace) (source : String) (word : String) (span : Span) :
    Output :=
  .written ((workspace.running source).reporter.warn (redefinitionComplaint word span))

/-- Whether the run of a text that is a program warns about the redefinitions in it, and how. -/
structure Warns (limits : Limits) (workspace : Workspace) (source : String) (program : Expr) :
    Prop where
  /-- What is warned about is what the nodes redefine, and each of them is looked at once. -/
  nodes : program.redefinitions = program.nodes.filterMap redefinition? ∧
    (∀ node, node ∈ program.nodes ↔ program.HasNode node) ∧
    ∀ node word span, redefinition? node = some (word, span) ↔ node.Redefines word span
  /-- The words come in the order of the text. -/
  ordered : program.redefinitions.Pairwise fun first second => first.2.start < second.2.start
  /-- Every word stands at its place in the text, and the warning names this place. -/
  located : ∀ word span, (word, span) ∈ program.redefinitions →
    Text.slice source.toList span.start span.stop = word.toList ∧
      workspace.redefinitionWarning source word span =
        let reporter := (workspace.running source).reporter
        let address := Text.Address.of source.toList span.start
        .written (Text.Style.bold.paint reporter.color
          (workspace.path ++ (":" ++ Nat.repr address.number ++ ":" ++ Nat.repr address.column ++
            ": ")) ++
          reporter.body .warning "warning" (redefinitionComplaint word span))
  /-- Nothing but the output changes. -/
  checked : (workspace.running source).check program =
    { workspace.running source with
      output := workspace.output ++ (program.redefinitions.map fun (word, span) =>
        workspace.redefinitionWarning source word span).toArray }
  /-- The evaluation begins after that, in the same scope. -/
  evaluated : workspace.run limits source =
      match ((workspace.running source).check program).perform
        (limits.eval program workspace.scope) with
      | (.error ending, after) => (.error ending, after)
      | (.ok value, after) => (.ok value, after.succeeded value)
  /-- What comes after the warnings are the lines that the program prints. -/
  output : ∃ lines : Array String, (workspace.run limits source).2.output =
    ((workspace.running source).check program).output ++ lines.map .printed

theorem check_running (workspace : Workspace) (source : String) (program : Expr) :
    (workspace.running source).check program =
      { workspace.running source with
        output := workspace.output ++ (program.redefinitions.map fun (word, span) =>
          workspace.redefinitionWarning source word span).toArray } :=
  check_eq _ program

/-- After the warnings, a run only prints. -/
theorem output_run (h : Expr.parse limits.depth source = .ok program) (workspace : Workspace) :
    ∃ lines : Array String, (workspace.run limits source).2.output =
      ((workspace.running source).check program).output ++ lines.map .printed := by
  rw [run_of_ok h, check_eq]
  generalize limits.eval program workspace.scope workspace.store.quiet = out
  obtain ⟨reason | value, store⟩ := out
  · exact ⟨store.printed, rfl⟩
  · exact ⟨store.printed, rfl⟩

theorem store_run (h : Expr.parse limits.depth source = .ok program) (workspace : Workspace) :
    (workspace.run limits source).2.store =
      (limits.eval program workspace.scope workspace.store.quiet).2.quiet := by
  rw [run_of_ok h]
  generalize limits.eval program workspace.scope workspace.store.quiet = out
  obtain ⟨reason | value, store⟩ := out <;> rfl

theorem warns_of_parse (h : Expr.parse limits.depth source = .ok program) (workspace : Workspace) :
    workspace.Warns limits source program := by
  constructor
  case nodes =>
    exact ⟨program.redefinitions_eq_filterMap, fun _ => Expr.mem_nodes_iff,
      fun _ _ _ => Expr.redefinition?_eq_some_iff⟩
  case ordered => exact Expr.redefinitions_ordered (Expr.nested_of_parse h)
  case located =>
    intro word span hmem
    refine ⟨?_, ?_⟩
    · exact (Expr.standsIn_of_parse h (Expr.hasNode_of_mem_redefinitions hmem)).spelled _ _ rfl
    · have hcurrent : (workspace.running source).reporter.current = some workspace.path := rfl
      have hsource : (workspace.running source).reporter.source = source :=
        Reporter.source_register _ _ _
      rw [redefinitionWarning, Reporter.warn, Reporter.present_eq hcurrent, hsource]
      rfl
  case checked => exact workspace.check_running source program
  case evaluated =>
    simp only [run, h]
    rfl
  case output => exact output_run h workspace

/-! ### Sessions -/

/-- Whether a workspace is that of a session that has just been opened, in a process that may
    have done anything before, or in a global scope of its own. -/
inductive New (workspace : Workspace) : Prop where
  | shared {earlier : Limits} {operations : List Operation} {reporter : Reporter} {path : String}
      {console : Bool}
      (h : Workspace.create reporter path console (Process.fresh.after earlier operations).store
        (Process.fresh.after earlier operations).globals = .ok workspace)
  | own {store : Store} {reporter : Reporter} {path : String} {console : Bool}
      (h : Workspace.create reporter path console store.createGlobal.2 store.createGlobal.1 =
        .ok workspace)

/-- Whether a step runs a text that is a program with a node, and meanwhile warns about a word
    at a place. -/
def WarnedAbout (limits : Limits) (workspace : Workspace) (step : Step) (node : Expr)
    (word : String) (span : Span) : Prop :=
  ∃ source program emitted, workspace.source? step.task = some source ∧
    Expr.parse limits.depth source = .ok program ∧ program.HasNode node ∧
    (workspace.take limits step).output = workspace.output ++ emitted ∧
    workspace.redefinitionWarning source word span ∈ emitted

/-- A new session has a scope of its own, inside a global scope with nothing but what this starts
    with. -/
theorem New.exists_opened (h : workspace.New) :
    ∃ (reporter : Reporter) (path : String) (store : Store) (globals : ScopeId),
      store.scopes[globals]? =
        some { parent := none, bindings := Store.globalBindings globals } ∧
      workspace = Process.opened reporter path store globals := by
  cases h with
  | @shared earlier operations reporter path console h =>
      obtain ⟨reporter', hopened⟩ := Process.opened_of_create h
      exact ⟨reporter', path, _, _, Process.globals_after earlier operations, hopened⟩
  | @own store reporter path console h =>
      obtain ⟨reporter', hopened⟩ := Process.opened_of_create h
      exact ⟨reporter', path, _, _, (store.scopes_create _ _ _).trans (if_pos rfl), hopened⟩

/-- What can be found in a new session are built-in functions and booleans. -/
theorem New.covered (h : workspace.New) :
    ∃ globals base, ∀ programs hplain,
      let origin := Origin.ofPrograms programs hplain globals base
      origin.Covers workspace.store ∧ origin.Home workspace.scope := by
  obtain ⟨reporter, path, store, globals, hglobals, rfl⟩ := h.exists_opened
  refine ⟨globals, store.scopes.size, fun programs hplain => ?_⟩
  intro origin
  have hcovers : origin.Covers store := Origin.covers_of_globals hglobals rfl
  exact hcovers.create (.inl rfl) Bindings.all_nil

/-- The text of a task depends on the path of the workspace only. -/
theorem source?_congr {other : Workspace} (h : workspace.path = other.path) :
    workspace.source? = other.source? := by
  funext task
  cases task with
  | load file => cases file <;> simp only [source?, h]
  | _ => rfl

variable {origin : Origin}

/-- What belongs to an origin is not left by a step if the program that is read belongs to it. -/
theorem take_covered (hcovers : origin.Covers workspace.store)
    (hscope : origin.Home workspace.scope) {step : Step}
    (hread : ∀ source, workspace.source? step.task = some source → ∀ program,
      Expr.parse limits.depth source = .ok program → origin.nodes program) :
    origin.Covers (workspace.take limits step).store := by
  rw [(cared_take limits workspace step).store]
  cases hsource : workspace.source? step.task with
  | some source =>
      rw [attempt_of_source hsource]
      exact (run_covered hcovers hscope (hread source hsource)).2.2
  | none =>
      rw [(attempted limits workspace step.task).store_eq hsource]
      exact hcovers

theorem takeAll_covered (hcovers : origin.Covers workspace.store)
    (hscope : origin.Home workspace.scope) {steps : List Step}
    (hread : ∀ step ∈ steps, ∀ source, workspace.source? step.task = some source → ∀ program,
      Expr.parse limits.depth source = .ok program → origin.nodes program) :
    origin.Covers (workspace.takeAll limits steps).store := by
  induction steps generalizing workspace with
  | nil => exact hcovers
  | cons step rest ih =>
      obtain ⟨hpath, hsame⟩ := place_take limits workspace step
      refine ih (take_covered hcovers hscope (hread step List.mem_cons_self)) (hsame ▸ hscope) ?_
      rw [source?_congr hpath]
      exact fun other hother => hread other (List.mem_cons_of_mem step hother)

/-- A step that reads a program warns about what its nodes redefine. -/
theorem warnedAbout_of_hasNode {step : Step} (hsource : workspace.source? step.task = some source)
    (hparse : Expr.parse limits.depth source = .ok program) {node : Expr}
    (hnode : program.HasNode node) {word : String} {span : Span}
    (hredefines : node.Redefines word span) :
    workspace.WarnedAbout limits step node word span := by
  have hattempt : (workspace.attempt limits step.task).2 = (workspace.run limits source).2 := by
    rw [attempt_of_source hsource]
    rfl
  obtain ⟨lines, hrun⟩ := output_run hparse workspace
  obtain ⟨written, htake⟩ := (cared_take limits workspace step).output
  rw [hattempt, hrun, check_running] at htake
  simp only [Array.append_assoc] at htake
  refine ⟨source, program, _, hsource, hparse, hnode, htake, ?_⟩
  have hmem : (word, span) ∈ program.redefinitions :=
    Expr.mem_redefinitions_iff.2 ⟨node, hnode, hredefines⟩
  apply Array.mem_append_left
  rw [List.mem_toArray]
  exact List.mem_map.2 ⟨(word, span), hmem, rfl⟩

/-- The run of any program first warns about the definitions of forms' words in it, each once and
    in the order of the text, and changes nothing meanwhile.  So in a session, whatever is done
    in it, a definition of a form's word that an execution comes to is a node of a program that
    was read in this step or an earlier one, and it was warned about in that step. -/
theorem redefinitions_warned (limits : Limits) :
    (∀ (workspace : Workspace) (source : String) (program : Expr),
      Expr.parse limits.depth source = .ok program → workspace.Warns limits source program) ∧
    ∀ workspace : Workspace, workspace.New → ∀ (steps : List Step) (step : Step) (source : String)
      (program : Expr),
      let current := workspace.takeAll limits steps
      current.source? step.task = some source → Expr.parse limits.depth source = .ok program →
      ∀ (last : Moment) (word : String) (span : Span),
        (current.start program).Reaches last → last.expr.Redefines word span →
        ∃ before other behind, steps ++ [step] = before ++ other :: behind ∧
          (workspace.takeAll limits before).WarnedAbout limits other last.expr word span := by
  refine ⟨fun workspace source program hparse => warns_of_parse hparse workspace, ?_⟩
  intro workspace hnew steps step source program current hsource hparse last word span hreaches
    hredefines
  have hpath : ∀ some : List Step, (workspace.takeAll limits some).source? = workspace.source? :=
    fun some => source?_congr (place_takeAll limits workspace some).1
  obtain ⟨globals, base, hcovered⟩ := hnew.covered
  -- the programs that are read in the session, this step included
  let origin := Origin.ofPrograms
    (fun program => ∃ step' ∈ steps ++ [step], ∃ text, workspace.source? step'.task = some text ∧
      Expr.parse limits.depth text = .ok program)
    (fun program ⟨_, _, _, _, hread⟩ => Expr.plain_of_parse hread) globals base
  obtain ⟨hcovers, hhome⟩ : origin.Covers workspace.store ∧ origin.Home workspace.scope :=
    hcovered _ _
  have hread : ∀ step' ∈ steps ++ [step], ∀ text, workspace.source? step'.task = some text →
      ∀ program, Expr.parse limits.depth text = .ok program → origin.nodes program :=
    fun step' hmem text htext program hprogram =>
      ⟨program, ⟨step', hmem, text, htext, hprogram⟩, Expr.hasNode_refl program⟩
  have hstore : origin.Covers current.store := takeAll_covered hcovers hhome fun step' hmem =>
    hread step' (List.mem_append_left _ hmem)
  have hstart : origin.Home (current.start program).scope := by
    have hscope : current.scope = workspace.scope := (place_takeAll limits workspace steps).2.1
    rwa [start, hscope]
  rw [hpath] at hsource
  have hprogram : origin.nodes program :=
    hread step (List.mem_append_right _ List.mem_cons_self) source hsource program hparse
  obtain ⟨parsed, ⟨other, hother, text, htext, hparsed⟩, hnode⟩ :=
    origin.nodes_of_reaches hreaches hprogram hstart hstore
  obtain ⟨before, behind, happend⟩ := List.append_of_mem hother
  refine ⟨before, other, behind, happend, ?_⟩
  exact warnedAbout_of_hasNode ((hpath before).symm ▸ htext) hparsed hnode hredefines

/-- A function redefines the word of a form when it is called, in a later run than the one that has
    read its body; the program of this later run redefines nothing. -/
theorem redefinitions_warned_called :
    let workspace := Process.opened (Reporter.new false false) typedPath Process.fresh.store
      Process.fresh.globals
    let first : Step := ⟨.run "define(f, fun(x, define(if, x)))", false⟩
    let second : Step := ⟨.run "f(1)", false⟩
    ∃ (definition program : Expr) (last : Moment),
      Expr.parse 20 "define(f, fun(x, define(if, x)))" = .ok definition ∧
      workspace.Warns ⟨20, 0⟩ "define(f, fun(x, define(if, x)))" definition ∧
      Expr.parse 20 "f(1)" = .ok program ∧ program.redefinitions = [] ∧
      ((workspace.takeAll ⟨20, 0⟩ [first]).start program).Reaches last ∧
      last.expr.Redefines "if" ⟨24, 26⟩ ∧
      ∃ before other behind, [first, second] = before ++ other :: behind ∧
        (workspace.takeAll ⟨20, 0⟩ before).WarnedAbout ⟨20, 0⟩ other last.expr "if" ⟨24, 26⟩ := by
  intro workspace first second
  let body : Expr := .call (.name "define" ⟨17, 23⟩)
    [.name "if" ⟨24, 26⟩, .name "x" ⟨28, 29⟩] ⟨17, 30⟩
  let definition : Expr := .call (.name "define" ⟨0, 6⟩)
    [.name "f" ⟨7, 8⟩, .call (.name "fun" ⟨10, 13⟩) [.name "x" ⟨14, 15⟩, body] ⟨10, 31⟩] ⟨0, 32⟩
  let program : Expr := .call (.name "f" ⟨0, 1⟩) [.literal (.int 1) ⟨2, 3⟩] ⟨0, 4⟩
  let process := Process.fresh.after ⟨0, 0⟩ []
  have hcreate : Workspace.create (.new true false) typedPath true process.store process.globals =
      .ok workspace := rfl
  have hdefinition : Expr.parse 20 "define(f, fun(x, define(if, x)))" = .ok definition := by
    simp only [definition, body]
    cbv
  have hparse : Expr.parse 20 "f(1)" = .ok program := by
    simp only [program]
    cbv
  let store : Store := { Process.fresh.store with
    scopes := Process.fresh.store.scopes.push
      { parent := some 0, bindings := [("f", .closure 0 ["x"] body 1)] }
    closures := 1 }
  let current := workspace.takeAll ⟨20, 0⟩ [first]
  have hstart : current.start program = ⟨program, 1, store⟩ := by
    have hscope : current.scope = 1 := (place_takeAll ⟨20, 0⟩ workspace [first]).2.1
    have hstore : current.store = store := by
      refine (store_run hdefinition workspace).trans ?_
      simp only [workspace, store, definition, body]
      cbv
    rw [start, hscope, hstore]
    rfl
  have hoperator : Moment.Yields ⟨.name "f" ⟨0, 1⟩, 1, store⟩ (.closure 0 ["x"] body 1) store := by
    refine ⟨⟨20, 0⟩, ?_⟩
    simp only [store, body]
    cbv
  have hargument : Moment.Yields ⟨.literal (.int 1) ⟨2, 3⟩, 1, store⟩ (.int 1) store :=
    ⟨⟨20, 0⟩, rfl⟩
  have hreaches : (current.start program).Reaches
      ⟨body, 2, (store.create (some 1) [("x", .int 1)]).2⟩ := by
    rw [hstart]
    exact Relation.ReflTransGen.single
      (.body (.call rfl hoperator (.cons hargument .nil)) rfl)
  have hredefines : body.Redefines "if" ⟨24, 26⟩ := .define rfl
  obtain ⟨hwarns, hearlier⟩ := redefinitions_warned ⟨20, 0⟩
  exact ⟨definition, program, _, hdefinition, hwarns workspace _ definition hdefinition, hparse,
    rfl, hreaches, hredefines, hearlier workspace (.shared hcreate) [first] second "f(1)" program
      rfl hparse _ "if" ⟨24, 26⟩ hreaches hredefines⟩

end Workspace

end CallLang
