/-
  CallLang/Proofs/CleanRuns.lean
  ==============================
  **Runs of texts without escape characters.**

  Programs make strings only by joining others, and functions only of their own nodes.  So if a
  program was read from a clean text, all strings and names that come up in its execution are
  clean, and so is what it prints and what stops it.

  A process may have run other programs before.  Their values stay in scopes that the execution
  does not come to: it finds no more than the global scope and those that were created since.
-/
import CallLang.Proofs.Blame
import CallLang.Proofs.Escapes
import CallLang.Proofs.Recovery

namespace CallLang

open Text (Clean)

/-! ### Trees -/

/-- Whether a tree could have been read from a text, where all names and strings are clean. -/
structure Expr.Clean (tree : Expr) : Prop where
  plain : tree.Plain
  names : ∀ text span, tree.HasNode (.name text span) → Text.Clean text
  strings : ∀ text span, tree.HasNode (.literal (.string text) span) → Text.Clean text

theorem Expr.Clean.child {tree child : Expr} (h : tree.Clean) (hchild : child ∈ tree.children) :
    child.Clean := by
  have hnode : tree.HasNode child := (Expr.hasNode_refl tree).child hchild
  exact ⟨h.plain.node hnode, fun text span hbelow => h.names text span (hnode.trans hbelow),
    fun text span hbelow => h.strings text span (hnode.trans hbelow)⟩

namespace Grammar

variable {text : List Char} {depth : Nat} {contents : String} {span : Span}

/-- An atom that is read somewhere in a text is a part of it. -/
theorem ReadIn.name_subset (h : ReadIn text depth (.name contents span)) :
    contents.toList ⊆ text := by
  rw [← h.standsIn.spelled contents span rfl]
  exact Text.slice_subset _ _ _

theorem ReadIn.string_subset (h : ReadIn text depth (.literal (.string contents) span)) :
    contents.toList ⊆ text := by
  generalize hnode : Expr.literal (.string contents) span = node at h
  obtain ⟨p, -, -, htext⟩ := h
  rcases p.atom_or_append with ⟨atom, rfl⟩ | ⟨q, gap, operands, rfl⟩
  · cases atom with
    | text characters =>
        cases hnode
        intro c hc
        rw [String.toList_ofList] at hc
        simp [htext, Phrase.chars, Atom.chars, hc]
    | _ => cases hnode
  · rw [Phrase.expr_called] at hnode
    cases hnode

end Grammar

theorem Expr.clean_of_parse {limit : Nat} {source : String} {program : Expr}
    (h : Expr.parse limit source = .ok program) (hsource : Text.Clean source) : program.Clean where
  plain := Expr.plain_of_parse h
  names := fun _ _ hnode =>
    Text.clean_of_subset (Expr.readIn_of_parse h _ hnode).name_subset hsource
  strings := fun _ _ hnode =>
    Text.clean_of_subset (Expr.readIn_of_parse h _ hnode).string_subset hsource

/-! ### Texts that cannot be read -/

namespace Reader

variable {limit : Nat} {text : List Char} {stage : Stage} {frames : List Frame} {level : Nat}

theorem lineFrom_subset (text : List Char) (place : Nat) : (lineFrom text place).toList ⊆ text := by
  intro c hc
  rw [lineFrom, String.toList_ofList] at hc
  exact List.mem_of_mem_drop ((List.takeWhile_prefix _).subset hc)

/-- A mistake of the reader quotes no more than a line of the text. -/
theorem quoted_of_read {tokens : List Lexeme} {cause : Mistake} {place : Option Span}
    (h : read limit text stage frames level tokens = .error (.mistake cause place)) :
    ∀ quoted ∈ cause.quoted, quoted.toList ⊆ text := by
  have hrefused : ∀ {other : Mistake} {start stop : Nat}, other.quoted = [] →
      (refuse other start stop : Except Stop (Expr × List Lexeme)) =
        .error (.mistake cause place) → ∀ quoted ∈ cause.quoted, quoted.toList ⊆ text := by
    rintro other start stop hnone ⟨⟩ quoted hquoted
    rw [hnone] at hquoted
    cases hquoted
  fun_induction read limit text stage frames level tokens with
  | case1 | case3 | case7 | case13 => exact hrefused rfl h
  | case2 _ _ _ _ _ _ ih | case5 _ _ _ _ _ _ _ _ _ ih => exact ih h
  | case8 _ _ _ _ _ _ _ ih | case11 _ _ _ _ _ _ _ ih | case12 _ _ _ _ _ _ _ ih => exact ih h
  | case4 opening frames level lexeme rest reason hatom =>
      cases h
      unfold atom at hatom
      cases htoken : lexeme.token <;> rw [htoken] at hatom
      case numeral digits =>
        simp only at hatom
        split at hatom <;> cases hatom
      all_goals cases hatom
      all_goals exact List.forall_mem_singleton.2 (lineFrom_subset text lexeme.start)
  | case6 | case9 | case10 => cases h

theorem quoted_of_parse {source : String} {cause : Mistake} {place : Option Span}
    (h : Expr.parse limit source = .error (.mistake cause place)) :
    ∀ quoted ∈ cause.quoted, quoted.toList ⊆ source.toList := by
  rw [parse_eq] at h
  cases hresult : readAll limit source with
  | error reason =>
      rw [hresult] at h
      exact quoted_of_read (hresult.trans (congrArg Except.error (Except.error.inj h)))
  | ok result =>
      rw [hresult] at h
      obtain ⟨expr, _ | ⟨lexeme, rest⟩⟩ := result
      · cases h
      · simp only [complete, refuse] at h
        split at h
        · cases h
        · cases h
          exact List.forall_mem_nil _

end Reader

/-! ### Values -/

/-- Whether all strings and names in a value are clean, and the scopes of its closures are of one
    kind. -/
inductive Value.Clean (homes : ScopeId → Prop) : Value → Prop where
  | number (n : Number) : Value.Clean homes (.number n)
  | string {text : String} (h : Text.Clean text) : Value.Clean homes (.string text)
  | boolean (b : Bool) : Value.Clean homes (.boolean b)
  | array {items : List Value} (h : ∀ item ∈ items, item.Clean homes) :
      Value.Clean homes (.array items)
  | closure {id : Nat} {parameters : List String} {body : Expr} {scope : ScopeId}
      (hparameters : ∀ parameter ∈ parameters, Text.Clean parameter) (hbody : body.Clean)
      (hscope : homes scope) : Value.Clean homes (.closure id parameters body scope)
  | builtin (function : Builtin) (home : ScopeId) : Value.Clean homes (.builtin function home)

theorem exists_of_forall₂ {α β : Type} {r : α → β → Prop} {as : List α} {bs : List β}
    (h : List.Forall₂ r as bs) : ∀ b ∈ bs, ∃ a ∈ as, r a b := by
  induction h with
  | nil => exact List.forall_mem_nil _
  | cons hfirst _ ih =>
      refine List.forall_mem_cons.2 ⟨⟨_, List.mem_cons_self, hfirst⟩, fun b hb => ?_⟩
      obtain ⟨a, ha, hab⟩ := ih b hb
      exact ⟨a, List.mem_cons_of_mem _ ha, hab⟩

/-- A clean value is shown as a clean text. -/
theorem Value.Clean.display {homes : ScopeId → Prop} {value : Value} (h : value.Clean homes)
    {limit : Nat} {nested : Bool} {text : String} (htext : value.display limit nested = .ok text) :
    Text.Clean text := by
  induction h generalizing limit nested text with
  | number n =>
      cases limit with
      | zero => cases htext
      | succ limit => exact Number.clean_of_display htext
  | string h =>
      cases limit with
      | zero => cases htext
      | succ limit =>
          obtain rfl := Except.ok.inj htext
          have hmark : Text.Clean "\"" := by decide
          split
          · exact Text.clean_append.2 ⟨Text.clean_append.2 ⟨hmark, h⟩, hmark⟩
          · exact h
  | boolean b =>
      cases limit with
      | zero => cases htext
      | succ limit =>
          obtain rfl := Except.ok.inj htext
          cases b <;> decide
  | array h ih =>
      cases limit with
      | zero => cases htext
      | succ limit =>
          obtain ⟨texts, htexts, rfl⟩ := Value.display_array_eq_ok.1 htext
          have hitems : ∀ text ∈ texts, Text.Clean text := by
            intro text hmem
            obtain ⟨item, hitem, hshown⟩ := exists_of_forall₂ htexts text hmem
            exact ih item hitem hshown
          have hopening : Text.Clean "[" := by decide
          have hclosing : Text.Clean "]" := by decide
          exact Text.clean_append.2 ⟨Text.clean_append.2
            ⟨hopening, Text.clean_commaSeparated hitems⟩, hclosing⟩
  | closure hparameters hbody hscope =>
      cases limit with
      | zero => cases htext
      | succ limit =>
          obtain rfl := Except.ok.inj htext
          have hopening : Text.Clean "fun(" := by decide
          have hclosing : Text.Clean ")" := by decide
          exact Text.clean_append.2 ⟨Text.clean_append.2
            ⟨hopening, Text.clean_commaSeparated hparameters⟩, hclosing⟩
  | builtin function home =>
      cases limit with
      | zero => cases htext
      | succ limit =>
          obtain rfl := Except.ok.inj htext
          cases function <;> decide

/-! ### The invariant -/

/-- The origin of the execution of clean trees. -/
def Origin.clean (globals : ScopeId) (base : Nat) : Origin where
  nodes := Expr.Clean
  globals := globals
  base := base
  plain := Expr.Clean.plain
  children := Expr.Clean.child

/-- Whether everything is clean that can be found from the global scope and from the scopes from a
    number on, and everything that has been printed. -/
structure Store.Clean (globals : ScopeId) (base : Nat) (store : Store) : Prop where
  base_le : base ≤ store.scopes.size
  holds : store.Holds (Origin.clean globals base).Home
    (Value.Clean (Origin.clean globals base).Home)
  printed : ∀ line ∈ store.printed, Text.Clean line

section

variable {globals : ScopeId} {base : Nat} {store : Store}

theorem Store.Clean.create (h : store.Clean globals base) {parent : ScopeId}
    (hparent : (Origin.clean globals base).Home parent) {bindings : Bindings}
    (hbindings : bindings.All (Value.Clean (Origin.clean globals base).Home)) :
    (store.create (some parent) bindings).2.Clean globals base ∧
      (Origin.clean globals base).Home store.scopes.size := by
  refine ⟨⟨?_, h.holds.create ?_ hbindings, h.printed⟩, .inr h.base_le⟩
  · rw [Store.size_create]
    exact Nat.le_succ_of_le h.base_le
  · rintro id ⟨rfl⟩
    exact hparent

/-- What has been printed does not matter for what can be found. -/
theorem Store.Clean.quiet (h : store.Clean globals base) : store.quiet.Clean globals base :=
  ⟨h.base_le, h.holds, fun _ hmem => absurd hmem (Array.not_mem_empty _)⟩

end

/-- What occurs in the execution of programs that were read from clean texts. -/
def Invariant.clean (globals : ScopeId) (base : Nat) : Invariant where
  store := Store.Clean globals base
  scope := fun _ id => (Origin.clean globals base).Home id
  value := fun _ value => value.Clean (Origin.clean globals base).Home
  expr := Expr.Clean
  stop := Stop.Clean

theorem Invariant.kept_clean (globals : ScopeId) (base : Nat) :
    (Invariant.clean globals base).Kept where
  scope_grows := fun _ h => h
  value_grows := fun _ h => h
  literal := by
    intro store value span h
    cases h.plain with
    | int n _ => exact .number _
    | string text _ => exact .string (h.strings text span (Expr.hasNode_refl _))
  operator := fun h => h.child List.mem_cons_self
  operand := fun h argument hmem => h.child (List.mem_cons_of_mem _ hmem)
  number := .number
  boolean := .boolean
  join := by
    intro store s t hs ht
    cases hs with
    | string hs =>
        cases ht with
        | string ht => exact .string (Text.clean_append.2 ⟨hs, ht⟩)
  array := by
    intro store items
    constructor
    · intro h
      cases h with
      | array h => exact h
    · exact .array
  closure := by
    intro store id parameters body scope h
    cases h with
    | closure _ hbody hscope => exact ⟨hbody, hscope⟩
  lookup := fun h hid hfound => h.holds.find? hid hfound
  create := fun parameters h hparent harguments =>
    h.create hparent (Bindings.all_ofPairs parameters harguments)
  define := by
    intro store id value name h _ hvalue
    refine ⟨?_, h.holds.define id name hvalue, h.printed⟩
    rw [Store.size_define]
    exact h.base_le
  print := by
    intro store value limit text h hvalue htext
    refine ⟨h.base_le, h.holds, fun line hmem => ?_⟩
    rcases Array.mem_push.1 hmem with hmem | rfl
    · exact h.printed line hmem
    · exact hvalue.display htext
  close := by
    intro store body scope parameters h hscope hbody hnames
    refine ⟨⟨h.base_le, h.holds, h.printed⟩, .closure (fun name hname => ?_) hbody hscope⟩
    obtain ⟨span, hnode⟩ := hnames name hname
    exact hnode.names name span (Expr.hasNode_refl _)
  unbound := fun h => Stop.clean_mistake (.unbound _)
    (List.forall_mem_singleton.2 (h.names _ _ (Expr.hasNode_refl _))) _
  misused := by
    intro operator operands span f _ _ _
    refine Stop.clean_mistake (f.misuse operands.length) ?_ _
    cases f <;> exact nofun
  parameters := by
    intro operator parameters body span reason _ _ h
    rcases Evaluator.error_of_parameterNames h with ⟨-, rfl⟩ | ⟨place, rfl⟩
    · exact Stop.clean_breakdown Breakdown.clean_noPlace
    · exact Stop.clean_mistake .badParameter nofun _
  applied := by
    intro operator arguments span cause _ _ _ hquoted
    refine Stop.clean_mistake cause (fun text hmem => ?_) _
    cases hquoted text hmem with
    | value hvalue htext => exact hvalue.display htext
    | builtin function => exact function.clean_name
  hole := fun _ => Stop.clean_mistake .hole nofun _
  tooDeep := Stop.clean_breakdown Breakdown.clean_tooDeep
  unfinished := trivial
  beyondDoubles := Stop.clean_breakdown Breakdown.clean_beyondDoubles
  longInteger := Stop.clean_breakdown Breakdown.clean_longInteger

/-! ### Runs -/

/-- The evaluation of a clean tree keeps everything clean that can be found, and comes to
    something clean. -/
theorem Limits.clean_eval {globals : ScopeId} {base : Nat} {store : Store}
    (hstore : store.Clean globals base) {scope : ScopeId}
    (hscope : (Origin.clean globals base).Home scope) {tree : Expr} (htree : tree.Clean)
    (limits : Limits) :
    let out := limits.eval tree scope store
    out.2.Clean globals base ∧
      (∀ value, out.1 = .ok value → value.Clean (Origin.clean globals base).Home) ∧
      ∀ reason, out.1 = .error reason → reason.Clean := by
  intro out
  obtain ⟨hclean, -, hvalue, hreason⟩ :=
    Evaluator.meets_eval (Invariant.kept_clean globals base) limits.rounds limits.depth store tree
      scope htree hscope store (.refl store) hstore
  exact ⟨hclean, hvalue, hreason⟩

/-- In a store in which scopes from a number on are still to come, there is nothing but what the
    global scope starts with. -/
theorem Store.clean_of_globals {globals : ScopeId} {store : Store}
    (hglobals : store.scopes[globals]? =
      some { parent := none, bindings := Store.globalBindings globals }) :
    store.quiet.Clean globals store.scopes.size where
  base_le := Nat.le_refl _
  holds := Store.holds_of_globals hglobals (fun _ hid => hid) .boolean fun function =>
    .builtin function _
  printed := fun _ hmem => absurd hmem (Array.not_mem_empty _)

theorem Breakdown.clean_of_numeric {cause : Breakdown} (h : cause = .tooDeep ∨ cause.Numeric) :
    cause.Clean := by
  rcases h with rfl | h
  · exact clean_tooDeep
  · cases cause with
    | beyondDoubles => exact clean_beyondDoubles
    | longInteger => exact clean_longInteger
    | longNumeral digits => exact clean_longNumeral digits
    | _ => cases h

/-- What keeps a clean text from being read is clean. -/
theorem Stop.clean_of_parse {limit : Nat} {source : String} {reason : Stop}
    (h : Expr.parse limit source = .error reason) (hsource : Text.Clean source) :
    reason.Clean := by
  cases reason with
  | mistake cause place =>
      refine Stop.clean_mistake cause (fun text hmem => ?_) place
      exact Text.clean_of_subset (Reader.quoted_of_parse h text hmem) hsource
  | breakdown cause => exact Stop.clean_breakdown (Breakdown.clean_of_numeric (numeric_of_parse h))
  | unfinished => trivial

end CallLang
