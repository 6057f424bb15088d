/-
  CallLang/Proofs/Quotes.lean
  ===========================
  **Strings without quotation marks.**

  The grammar has no notation for a quotation mark within a string, and programs make
  strings only by joining others.  So no string that ever comes up in an execution
  contains one, wherever it is kept: this is one more invariant of evaluation.
-/
import CallLang.Proofs.Nodes
import CallLang.Proofs.Origins

namespace CallLang

/-! ### Trees and values -/

/-- Whether a tree could have been read from a text, where no string contains a quotation
    mark. -/
structure Expr.Unquoted (tree : Expr) : Prop where
  plain : tree.Plain
  strings : ∀ text span, tree.HasNode (.literal (.string text) span) → '"' ∉ text.toList

theorem Expr.Unquoted.child {tree child : Expr} (h : tree.Unquoted)
    (hchild : child ∈ tree.children) : child.Unquoted := by
  have hnode : tree.HasNode child := (Expr.hasNode_refl tree).child hchild
  exact ⟨h.plain.node hnode, fun text span hbelow => h.strings text span (hnode.trans hbelow)⟩

/-- A string is read from the characters between two quotation marks. -/
theorem Grammar.ReadIn.unquoted {text : List Char} {depth : Nat} {contents : String} {span : Span}
    (h : ReadIn text depth (.literal (.string contents) span)) : '"' ∉ contents.toList := by
  generalize hnode : Expr.literal (.string contents) span = node at h
  obtain ⟨p, hproper, -, -⟩ := h
  rcases p.atom_or_append with ⟨atom, rfl⟩ | ⟨q, gap, operands, rfl⟩
  · cases atom with
    | text characters =>
        cases hnode
        rw [String.toList_ofList]
        exact hproper.1.1
    | _ => cases hnode
  · rw [Phrase.expr_called] at hnode
    cases hnode

theorem Expr.unquoted_of_parse {limit : Nat} {source : String} {program : Expr}
    (h : Expr.parse limit source = .ok program) : program.Unquoted where
  plain := Expr.plain_of_parse h
  strings := fun _ _ hnode => (Expr.readIn_of_parse h _ hnode).unquoted

/-- Whether no string in a value contains a quotation mark, those in the bodies of closures
    included. -/
inductive Value.Unquoted : Value → Prop where
  | number (n : Number) : Value.Unquoted (.number n)
  | string {text : String} (h : '"' ∉ text.toList) : Value.Unquoted (.string text)
  | boolean (b : Bool) : Value.Unquoted (.boolean b)
  | array {items : List Value} (h : ∀ item ∈ items, item.Unquoted) : Value.Unquoted (.array items)
  | closure {id : Nat} {parameters : List String} {body : Expr} {scope : ScopeId}
      (h : body.Unquoted) : Value.Unquoted (.closure id parameters body scope)
  | builtin (function : Builtin) (home : ScopeId) : Value.Unquoted (.builtin function home)

/-! ### The invariant -/

/-- What occurs in the execution of programs that were read from texts. -/
def Invariant.unquoted : Invariant where
  store := Store.Holds (fun _ => True) Value.Unquoted
  scope := fun _ _ => True
  value := fun _ value => value.Unquoted
  expr := Expr.Unquoted
  stop := fun _ => True

theorem Invariant.kept_unquoted : Invariant.unquoted.Kept where
  scope_grows := fun _ _ => trivial
  value_grows := fun _ h => h
  literal := by
    intro store value span h
    cases h.plain with
    | int n _ => exact .number _
    | string text _ => exact .string (h.strings text span (Expr.hasNode_refl _))
  operator := fun h => h.child List.mem_cons_self
  operand := fun h argument hmem => h.child (List.mem_cons_of_mem _ hmem)
  number := .number
  boolean := .boolean
  join := by
    intro store s t hs ht
    cases hs with
    | string hs =>
        cases ht with
        | string ht =>
            refine .string fun hmem => ?_
            rw [String.toList_append] at hmem
            rcases List.mem_append.1 hmem with hmem | hmem
            · exact hs hmem
            · exact ht hmem
  array := by
    intro store items
    constructor
    · intro h
      cases h with
      | array h => exact h
    · exact .array
  closure := by
    intro store id parameters body scope h
    cases h with
    | closure h => exact ⟨h, trivial⟩
  lookup := fun h _ hfound => h.find? trivial hfound
  create := fun parameters h _ harguments =>
    ⟨h.create (fun _ _ => trivial) (Bindings.all_ofPairs parameters harguments), trivial⟩
  define := fun name h _ hvalue => h.define _ name hvalue
  print := fun h _ _ => h
  close := fun h _ hbody _ => ⟨h, .closure hbody⟩
  unbound := fun _ => trivial
  misused := fun _ _ _ => trivial
  parameters := fun _ _ _ => trivial
  applied := fun _ _ _ _ => trivial
  hole := fun _ => trivial
  tooDeep := trivial
  unfinished := trivial
  beyondDoubles := trivial
  longInteger := trivial

/-! ### Executions -/

theorem Store.unquoted_begun : Invariant.unquoted.store Store.begun.2 := by
  have hempty : Store.empty.Holds (fun _ => True) Value.Unquoted := by
    intro id scope _ hscope
    simp [Store.empty] at hscope
  have hglobals : Process.fresh.store.Holds (fun _ => True) Value.Unquoted :=
    hempty.create (by rintro id ⟨⟩)
      (Bindings.all_globals .boolean _ fun function => .builtin function _)
  exact hglobals.create (fun _ _ => trivial) Bindings.all_nil

namespace Moment

/-- Whether a value comes up in the execution that starts at a moment: an evaluation returns it,
    or a scope binds it when an evaluation has ended or is cut off by some limits, or an array
    that comes up holds it. -/
inductive Computes (start : Moment) : Value → Prop where
  | returned {moment : Moment} {limits : Limits} {value : Value} (hreaches : start.Reaches moment)
      (h : (moment.run limits).1 = .ok value) : Computes start value
  | bound {moment : Moment} {limits : Limits} {id : ScopeId} {scope : Scope} {name : String}
      {value : Value} (hreaches : start.Reaches moment)
      (hscope : (moment.run limits).2.scopes[id]? = some scope)
      (h : scope.bindings.get? name = some value) : Computes start value
  | held {items : List Value} {item : Value} (harray : Computes start (.array items))
      (h : item ∈ items) : Computes start item

theorem Computes.unquoted {start : Moment} (hstart : Invariant.unquoted.Admits start)
    {value : Value} (h : start.Computes value) : value.Unquoted := by
  have hmeets : ∀ {moment : Moment} (limits : Limits), start.Reaches moment →
      Invariant.unquoted.store (moment.run limits).2 ∧
        ∀ value, (moment.run limits).1 = .ok value → value.Unquoted := by
    intro moment limits hreaches
    obtain ⟨hexpr, hscope, hstore⟩ := hreaches.admitted Invariant.kept_unquoted hstart
    obtain ⟨hafter, -, hvalue, -⟩ := Evaluator.meets_eval Invariant.kept_unquoted limits.rounds
      limits.depth moment.store moment.expr moment.scope hexpr hscope moment.store (.refl _) hstore
    exact ⟨hafter, hvalue⟩
  induction h with
  | returned hreaches hvalue => exact (hmeets _ hreaches).2 _ hvalue
  | @bound moment limits id scope name value hreaches hscope hbound =>
      exact ((hmeets limits hreaches).1 id scope trivial hscope).2 name value hbound
  | held _ hitem ih =>
      cases ih with
      | array h => exact h _ hitem

end Moment

/-- Whether a value comes up in the execution of a program in a new scope within the global scope
    of a process that has just begun. -/
def Value.ComputedBy (value : Value) (source : String) : Prop :=
  ∃ limit program, Expr.parse limit source = .ok program ∧
    Moment.Computes ⟨program, Store.begun.1, Store.begun.2⟩ value

/-- What a program comes to is computed by it. -/
theorem Value.computedBy_of_run {value : Value} {source : String} (limits : Limits)
    (h : (limits.run source Process.fresh.globals Process.fresh.store).1 = .ok value) :
    value.ComputedBy source := by
  unfold Limits.run Action.bind Action.ofExcept at h
  cases hparse : Expr.parse limits.depth source with
  | error reason =>
      rw [hparse] at h
      cases h
  | ok program =>
      rw [hparse] at h
      exact ⟨limits.depth, program, hparse, .returned .refl h⟩

theorem Value.ComputedBy.unquoted {value : Value} {source : String} (h : value.ComputedBy source) :
    value.Unquoted := by
  obtain ⟨limit, program, hparse, hcomputes⟩ := h
  exact hcomputes.unquoted ⟨Expr.unquoted_of_parse hparse, trivial, Store.unquoted_begun⟩

end CallLang
