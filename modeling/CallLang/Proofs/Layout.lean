/-
  CallLang/Proofs/Layout.lean
  ===========================
  **Layout does not matter.**

  A text is laid out from brackets, commas and atoms, with blanks and comments between
  them (`Grammar.Relaid`).  If it is a program, so is every other text that is laid out
  from the same pieces: the reader takes a token for what it is, wherever it stands, and
  so it passes through both texts in step and reads trees that differ in nothing but the
  places of their nodes.

  Evaluation never asks for a place except to blame it.  Hence runs of the two programs
  print the same and come to the same, and they make the same scopes and closures.
-/
import CallLang.Proofs.Passages
import CallLang.Proofs.References
import CallLang.Proofs.Sequences

namespace CallLang

/-- The tokens of a text, wherever they stand. -/
def tokensOf (text : String) : List Token :=
  (lexemes text).map Lexeme.token

/-- Whether two trees differ in nothing but the places of their nodes. -/
def Expr.Relocated (e e' : Expr) : Prop :=
  ∀ w, Expr.Same (.loose #[]) w e e'

/-! ### Layouts -/

namespace Grammar

/-- Whether two texts consist of the same brackets, commas and atoms in the same order, with a
    gap before each of them and one at the end.  In both texts every comment goes on to the end
    of its line, and no atom is made longer by what follows it. -/
inductive Relaid : List Char → List Char → Prop where
  | silent (gap gap' : Gap) (hgap : gap.Before none) (hgap' : gap'.Before none) :
      Relaid gap.chars gap'.chars
  | mark (gap gap' : Gap) {c : Char} {token : Token} {rest rest' : List Char}
      (hmark : Token.ofMark? c = some token) (hgap : gap.Before (some c))
      (hgap' : gap'.Before (some c)) (hrest : Relaid rest rest') :
      Relaid (gap.chars ++ c :: rest) (gap'.chars ++ c :: rest')
  | atom (gap gap' : Gap) {a : Atom} {rest rest' : List Char} (ha : a.Spelled)
      (hgap : gap.Before a.chars.head?) (hgap' : gap'.Before a.chars.head?)
      (hend : a.EndsBefore rest.head?) (hend' : a.EndsBefore rest'.head?)
      (hrest : Relaid rest rest') :
      Relaid (gap.chars ++ (a.chars ++ rest)) (gap'.chars ++ (a.chars ++ rest'))

theorem lexemesFrom_gap_mark {gap : Gap} {c : Char} {token : Token} (place : Nat)
    (rest : List Char) (hmark : Token.ofMark? c = some token) (hgap : gap.Before (some c)) :
    lexemesFrom place (gap.chars ++ c :: rest) =
      { token, start := place + gap.chars.length, stop := place + gap.chars.length + 1 } ::
        lexemesFrom (place + gap.chars.length + 1) rest := by
  rw [lexemesFrom_gap place hgap, lexemesFrom_mark token _ rest hmark]

theorem lexemesFrom_gap_atom {gap : Gap} {a : Atom} (place : Nat) {rest : List Char}
    (ha : a.Spelled) (hgap : gap.Before a.chars.head?) (hend : a.EndsBefore rest.head?) :
    lexemesFrom place (gap.chars ++ (a.chars ++ rest)) =
      { token := a.token, start := place + gap.chars.length,
        stop := place + gap.chars.length + a.chars.length } ::
        lexemesFrom (place + gap.chars.length + a.chars.length) rest := by
  have hhead : (a.chars ++ rest).head? = a.chars.head? := by
    obtain ⟨c, more, hcons, -⟩ := Atom.chars_eq_cons ha
    simp [hcons]
  rw [lexemesFrom_gap place (hhead ▸ hgap), lexemesFrom_ended _ ha hend]

/-- Texts that are laid out from the same pieces have the same tokens. -/
theorem Relaid.tokens_eq {text text' : List Char} (h : Relaid text text') (place place' : Nat) :
    (lexemesFrom place' text').map Lexeme.token = (lexemesFrom place text).map Lexeme.token := by
  induction h generalizing place place' with
  | silent gap gap' hgap hgap' =>
      have hsilent : ∀ {g : Gap} (place : Nat), g.Before none → lexemesFrom place g.chars = [] := by
        intro g place hg
        have hlexemes := lexemesFrom_gap (x := []) place hg
        rwa [List.append_nil, lexemesFrom] at hlexemes
      rw [hsilent place hgap, hsilent place' hgap']
  | mark gap gap' hmark hgap hgap' _ ih =>
      rw [lexemesFrom_gap_mark place _ hmark hgap, lexemesFrom_gap_mark place' _ hmark hgap',
        List.map_cons, List.map_cons, ih]
  | atom gap gap' ha hgap hgap' hend hend' _ ih =>
      rw [lexemesFrom_gap_atom place ha hgap hend, lexemesFrom_gap_atom place' ha hgap' hend',
        List.map_cons, List.map_cons, ih]

theorem Atom.token_inj {a b : Atom} (h : a.token = b.token) : a = b := by
  cases a <;> cases b <;> cases h <;> rfl

theorem ofMark?_ne_atom {c : Char} (a : Atom) : Token.ofMark? c ≠ some a.token := by
  intro h
  rcases mark_cases h with ⟨-, h⟩ | ⟨-, h⟩ | ⟨-, h⟩ <;> cases a <;> cases h

/-- Texts with the same tokens are laid out from the same pieces, unless a quotation mark is left
    alone. -/
theorem relaid_of_tokens_eq {place place' : Nat} {text text' : List Char}
    (htokens : (lexemesFrom place' text').map Lexeme.token =
      (lexemesFrom place text).map Lexeme.token)
    (hclosed : ∀ lexeme ∈ lexemesFrom place text, lexeme.token ≠ .unclosed) :
    Relaid text text' := by
  induction hlength : text.length using Nat.strong_induction_on
    generalizing place place' text text' with
  | _ length ih =>
  subst hlength
  have hlexed := lexed place text
  have hlexed' := lexed place' text'
  generalize lexemesFrom place text = row at hlexed htokens hclosed
  generalize lexemesFrom place' text' = row' at hlexed' htokens
  cases hlexed with
  | silent gap hgap =>
      cases hlexed' with
      | silent gap' hgap' => exact .silent gap gap' hgap hgap'
      | _ => cases htokens
  | mark gap c token rest hmark hgap =>
      cases hlexed' with
      | mark gap' c' token' rest' hmark' hgap' =>
          obtain ⟨htoken, hrest⟩ := List.cons.inj htokens
          obtain rfl : token' = token := htoken
          obtain rfl : c' = c := by
            rcases mark_cases hmark with ⟨rfl, rfl⟩ | ⟨rfl, rfl⟩ | ⟨rfl, rfl⟩ <;>
              rcases mark_cases hmark' with ⟨rfl, h⟩ | ⟨rfl, h⟩ | ⟨rfl, h⟩ <;> first | rfl | cases h
          refine .mark gap gap' hmark hgap hgap' (ih _ ?_ hrest ?_ rfl)
          · simp only [List.length_append, List.length_cons]
            omega
          · exact fun lexeme hmem => hclosed lexeme (List.mem_cons_of_mem _ hmem)
      | atom gap' a rest' ha hgap' hend' =>
          exact (ofMark?_ne_atom a (hmark.trans (congrArg _ (List.cons.inj htokens).1.symm))).elim
      | silent => cases htokens
      | unclosed =>
          rcases mark_cases hmark with ⟨-, rfl⟩ | ⟨-, rfl⟩ | ⟨-, rfl⟩ <;> cases htokens
  | atom gap a rest ha hgap hend =>
      obtain ⟨c, more, hcons, -⟩ := Atom.chars_eq_cons ha
      cases hlexed' with
      | mark gap' c' token' rest' hmark' hgap' =>
          exact (ofMark?_ne_atom a (hmark'.trans (congrArg _ (List.cons.inj htokens).1))).elim
      | atom gap' a' rest' ha' hgap' hend' =>
          obtain ⟨htoken, hrest⟩ := List.cons.inj htokens
          obtain rfl := Atom.token_inj htoken
          refine .atom gap gap' ha hgap hgap' hend hend' (ih _ ?_ hrest ?_ rfl)
          · simp only [List.length_append, hcons, List.length_cons]
            omega
          · exact fun lexeme hmem => hclosed lexeme (List.mem_cons_of_mem _ hmem)
      | silent => cases htokens
      | unclosed => cases a <;> cases htokens
  | unclosed gap body hbody hgap => exact (hclosed _ List.mem_cons_self rfl).elim

end Grammar

/-! ### Reading -/

theorem Expr.AllSame.reverse {c : Comparison} {w : Correspondence} {es es' : List Expr}
    (h : Expr.AllSame c w es es') : Expr.AllSame c w es.reverse es'.reverse := by
  induction es generalizing es' with
  | nil =>
      cases h with
      | nil => exact .nil
  | cons e es ih =>
      cases h with
      | cons he hes =>
          rw [List.reverse_cons, List.reverse_cons]
          exact (ih hes).append (.cons he .nil)

namespace Reader

open Grammar

/-- Whether readers await the same, or hold trees that differ only in places. -/
inductive Stage.Same (w : Correspondence) : Stage → Stage → Prop where
  | awaiting (opening : Opening) : Stage.Same w (.awaiting opening) (.awaiting opening)
  | holding {e e' : Expr} (h : Expr.Same (.loose #[]) w e e') :
      Stage.Same w (.holding e) (.holding e')

/-- Whether open calls differ only in places. -/
structure Frame.Same (w : Correspondence) (frame frame' : Frame) : Prop where
  operator : Expr.Same (.loose #[]) w frame.operator frame'.operator
  arguments : Expr.AllSame (.loose #[]) w frame.arguments frame'.arguments
  level : frame'.level = frame.level

structure Situation.Same (w : Correspondence) (s s' : Situation) : Prop where
  stage : Stage.Same w s.stage s'.stage
  frames : List.Forall₂ (Frame.Same w) s.frames s'.frames
  level : s'.level = s.level

section

variable {limit : Nat} {text : List Char} {w : Correspondence}

theorem Frame.Same.push {frame frame' : Frame} (h : Frame.Same w frame frame') {e e' : Expr}
    (he : Expr.Same (.loose #[]) w e e') : Frame.Same w (frame.push e) (frame'.push e') :=
  ⟨h.operator, .cons he h.arguments, h.level⟩

theorem Frame.Same.close {frame frame' : Frame} (h : Frame.Same w frame frame')
    (stop stop' : Nat) : Expr.Same (.loose #[]) w (frame.close stop) (frame'.close stop') :=
  .call h.operator h.arguments.reverse trivial

/-- A token that is an atom is the same atom at other places and in other texts. -/
theorem atom_of_token {lexeme lexeme' : Lexeme} (htoken : lexeme'.token = lexeme.token) {e : Expr}
    (h : atom text lexeme = .ok e) (text' : List Char) :
    ∃ e', atom text' lexeme' = .ok e' ∧ Expr.Same (.loose #[]) w e e' := by
  obtain ⟨token, start, stop⟩ := lexeme
  obtain ⟨token', start', stop'⟩ := lexeme'
  obtain rfl : token = token' := htoken.symm
  cases token with
  | text contents =>
      obtain rfl := Except.ok.inj h
      exact ⟨_, rfl, .literal (.string _) trivial⟩
  | word name =>
      obtain rfl := Except.ok.inj h
      exact ⟨_, rfl, .name _ trivial⟩
  | numeral digits =>
      simp only [atom] at h ⊢
      split at h
      · cases h
      · next hshort =>
          obtain rfl := Except.ok.inj h
          exact ⟨_, if_neg hshort, .literal (.number _) trivial⟩
  | _ => cases h

/-- Readers move in step through a token that stands at two places. -/
theorem Move.of_token {lexeme lexeme' : Lexeme} (htoken : lexeme'.token = lexeme.token)
    {s between s' : Situation} (hs : Situation.Same w s s')
    (h : Move text lexeme s.stage s.frames s.level between.stage between.frames between.level)
    (text' : List Char) :
    ∃ between', Move text' lexeme' s'.stage s'.frames s'.level between'.stage between'.frames
      between'.level ∧ Situation.Same w between between' := by
  obtain ⟨stage, frames, level⟩ := s
  obtain ⟨stage', frames', _⟩ := s'
  obtain ⟨stage₁, frames₁, level₁⟩ := between
  obtain ⟨hstage, hframes, rfl⟩ := hs
  dsimp only at hstage hframes h ⊢
  cases h with
  | atom e hatom =>
      cases hstage
      obtain ⟨e', hatom', hsame⟩ := atom_of_token htoken hatom text'
      exact ⟨⟨.holding e', frames', _⟩, .atom e' hatom', .holding hsame, hframes, rfl⟩
  | emptyList hclosing =>
      cases hstage
      obtain _ | ⟨hframe, hframes⟩ := hframes
      exact ⟨⟨_, _, _⟩, .emptyList (htoken.trans hclosing),
        .holding (hframe.close _ _), hframes, congrArg (· + 1) hframe.level⟩
  | opening hopening =>
      cases hstage with
      | holding hsame =>
          exact ⟨⟨_, _, _⟩, .opening (htoken.trans hopening), .awaiting _,
            .cons ⟨hsame, .nil, rfl⟩ hframes, rfl⟩
  | comma hcomma =>
      cases hstage with
      | holding hsame =>
          obtain _ | ⟨hframe, hframes⟩ := hframes
          exact ⟨⟨_, _, _⟩, .comma (htoken.trans hcomma), .awaiting _,
            .cons (hframe.push hsame) hframes, congrArg (· + 1) hframe.level⟩
  | closing hclosing =>
      cases hstage with
      | holding hsame =>
          obtain _ | ⟨hframe, hframes⟩ := hframes
          exact ⟨⟨_, _, _⟩, .closing (htoken.trans hclosing),
            .holding ((hframe.push hsame).close _ _), hframes, congrArg (· + 1) hframe.level⟩

/-- Readers pass in step through texts with the same tokens. -/
theorem Passes.of_tokens {row row' : List Lexeme}
    (htokens : row'.map Lexeme.token = row.map Lexeme.token) {s last s' : Situation}
    (hs : Situation.Same w s s') (h : Passes limit text s row last) (text' : List Char) :
    ∃ last', Passes limit text' s' row' last' ∧ Situation.Same w last last' := by
  induction h generalizing row' s' with
  | refl s =>
      obtain rfl := List.map_eq_nil_iff.1 htokens
      exact ⟨s', .refl s', hs⟩
  | @step s between last lexeme rest hmove hlevel _ ih =>
      obtain ⟨lexeme', rest', rfl, htoken, hrest⟩ := List.map_eq_cons_iff.1 htokens
      obtain ⟨between', hmove', hbetween⟩ := hmove.of_token htoken hs text'
      obtain ⟨last', hpasses, hlast⟩ := ih hrest hbetween
      refine ⟨last', .step hmove' (fun hopening => ?_) hpasses, hlast⟩
      rw [hs.level]
      exact hlevel (htoken.symm.trans hopening)

/-- Texts that are laid out like a program are those with its tokens. -/
theorem relaid_iff_tokens {source : String} {e : Expr} (h : Expr.parse limit source = .ok e)
    (source' : String) :
    Relaid source.toList source'.toList ↔ tokensOf source' = tokensOf source := by
  obtain ⟨level, hpasses⟩ := passes_of_parse h
  exact ⟨fun hlayout => hlayout.tokens_eq 0 0, fun htokens =>
    relaid_of_tokens_eq htokens hpasses.closed⟩

/-- A text with the tokens of a program is a program, and the trees of the two differ only in
    places. -/
theorem parse_of_tokens {source source' : String} (htokens : tokensOf source' = tokensOf source)
    {e : Expr} (h : Expr.parse limit source = .ok e) :
    ∃ e', Expr.parse limit source' = .ok e' ∧ e.Relocated e' := by
  obtain ⟨level, hpasses⟩ := passes_of_parse h
  have hparse : ∀ w, ∃ e', Expr.parse limit source' = .ok e' ∧ Expr.Same (.loose #[]) w e e' := by
    intro w
    have hinitial : Situation.Same w .initial .initial := ⟨.awaiting _, .nil, rfl⟩
    obtain ⟨⟨stage, frames, level'⟩, hpasses', hstage, hframes, hlevel⟩ :=
      hpasses.of_tokens htokens hinitial source'.toList
    cases hstage with
    | holding hsame =>
        cases hframes
        refine ⟨_, ?_, hsame⟩
        rw [parse_eq, readAll_eq hpasses' (List.append_nil _).symm, readOn, read_finished]
        rfl
  obtain ⟨e', he', -⟩ := hparse ⟨fun _ _ => False, fun _ _ => False⟩
  refine ⟨e', he', fun w => ?_⟩
  obtain ⟨other, hother, hsame⟩ := hparse w
  obtain rfl := Except.ok.inj (he'.symm.trans hother)
  exact hsame

/-- Texts with the same tokens, one of which is a program within some limit, are read as trees
    that differ only in places, or both are nested too deep. -/
theorem result_of_tokens {source source' : String} (htokens : tokensOf source' = tokensOf source)
    (hprogram : ∃ limit program, Expr.parse limit source = .ok program) (limit : Nat)
    (w : Correspondence) :
    Result.Same (.loose #[]) (Expr.Same (.loose #[]) w) (Expr.parse limit source)
      (Expr.parse limit source') := by
  obtain ⟨enough, program, hprogram⟩ := hprogram
  obtain ⟨program', hprogram', -⟩ := parse_of_tokens htokens hprogram
  -- within a limit that does not cut parsing off, each text is read as it is within enough
  have hcases : ∀ {text : String} {tree : Expr}, Expr.parse enough text = .ok tree →
      Expr.parse limit text = .ok tree ∨ Expr.parse limit text = .error (.breakdown .tooDeep) := by
    intro text tree htree
    by_cases hdeep : Expr.parse limit text = .error (.breakdown .tooDeep)
    · exact .inr hdeep
    · refine .inl ?_
      rw [← parse_of_le (Nat.le_max_left limit enough) (ended_parse hdeep),
        parse_of_le (Nat.le_max_right limit enough) (htree ▸ ended_ok tree), htree]
  rcases hcases hprogram with h | h
  · obtain ⟨e', he', hsame⟩ := parse_of_tokens htokens h
    rw [h, he']
    exact .ok (hsame w)
  · rcases hcases hprogram' with h' | h'
    · obtain ⟨e, he, -⟩ := parse_of_tokens htokens.symm h'
      cases h.symm.trans he
    · rw [h, h']
      exact .error (.breakdown _)

end

end Reader

/-! ### Comparing trees -/

theorem Number.equal_int (n : Int) : Number.equal (.int n) (.int n) = true := by
  rw [equal, rank?]
  exact decide_eq_true rfl

/-- Trees that differ only in places are compared as equal, if they could have been read. -/
theorem Expr.Plain.alike {c : Comparison} {w : Correspondence} {e e' : Expr} (he : e.Plain)
    (h : Expr.Same c w e e') : e.alike e' = true := by
  induction he generalizing e' with
  | int n span =>
      cases h with
      | literal hvalue hspan =>
          cases hvalue
          exact Number.equal_int n
  | string text span =>
      cases h with
      | literal hvalue hspan =>
          cases hvalue
          simp [Expr.alike, Value.alike]
  | name text span =>
      cases h
      simp [Expr.alike]
  | @call operator arguments span _ hplain ihoperator iharguments =>
      cases h with
      | @call _ operator' _ arguments' _ _ hoperator harguments hspan =>
          have hall : Expr.allAlike arguments arguments' = true := by
            clear hplain hspan
            induction arguments generalizing arguments' with
            | nil =>
                cases harguments
                rfl
            | cons argument rest ih =>
                obtain _ | ⟨hargument, hrest⟩ := harguments
                rw [Expr.allAlike, iharguments argument List.mem_cons_self hargument,
                  Bool.true_and]
                exact ih (fun other hmem => iharguments other (List.mem_cons_of_mem _ hmem)) hrest
          rw [Expr.alike, ihoperator hoperator, hall]
          rfl

/-! ### Running -/

/-- The comparison of runs in one store, for which places are of no account. -/
def Comparison.placeless (store : Store) : Comparison :=
  { spans := fun _ _ => True, told := store.printed, told' := store.printed }

/-- Programs that are laid out differently do the same to stores that are the same but for
    places. -/
theorem Limits.same_run_of_tokens (limits : Limits) {c : Comparison}
    (hspans : ∀ span span', c.spans span span') {source source' : String}
    (htokens : tokensOf source' = tokensOf source)
    (hprogram : ∃ limit program, Expr.parse limit source = .ok program) {w : Correspondence}
    {scope scope' : ScopeId} (hscope : w.scopes scope scope') :
    Action.Same c (Store.Same c) w (Value.Same c) (limits.run source scope)
      (limits.run source' scope') := by
  have hloose : (Comparison.loose #[]).spans ≤ c.spans := fun _ _ _ => hspans _ _
  have hparse : ∀ w₁, Result.Same c (Expr.Same c w₁) (Expr.parse limits.depth source)
      (Expr.parse limits.depth source') := by
    intro w₁
    have hloosely := Reader.result_of_tokens htokens hprogram limits.depth w₁
    generalize Expr.parse limits.depth source = result, Expr.parse limits.depth source' = result'
      at hloosely ⊢
    cases hloosely with
    | ok hsame => exact .ok (hsame.map hloose (.refl w₁))
    | error hreason => exact .error (hreason.map hloose)
  refine (Action.Same.ofExcept fun w₁ _ => hparse w₁).bind fun w₁ program program' hw hprogram => ?_
  refine (Action.Same.create (Store.likeness c) (hw.scopes _ _ hscope) .nil).bind
    fun w₂ inner inner' hw' hinner => ?_
  exact Evaluator.same_eval (Store.likeness c) limits.rounds limits.depth w₂ _ _ _ _
    (hprogram.mono hw') hinner

/-- Layout does not matter.  If a text can be read as a program, then so can every text that is
    laid out from the same brackets, commas and atoms, and their trees differ only in the places
    of their nodes.  Run in one store, both print the same and come to values that are the same
    but for places, or fail for the same reason; and they leave the same scopes and closures. -/
theorem Limits.layout_irrelevant (limits : Limits) {source source' : String} {store : Store}
    {scope : ScopeId} (hprogram : ∃ limit program, Expr.parse limit source = .ok program)
    (hlayout : Grammar.Relaid source.toList source'.toList) (hstore : store.Sound)
    (hscope : scope < store.scopes.size) :
    let out := limits.run source scope store
    let out' := limits.run source' scope store
    out'.2.printed = out.2.printed ∧
      Result.Alike out.2.identity out.1 out'.1 ∧
      Store.Same (.loose #[]) out.2.identity out.2 out'.2 ∧
      ∀ limit program, Expr.parse limit source = .ok program →
        ∃ program', Expr.parse limit source' = .ok program' ∧ program.alike program' = true ∧
          program.Relocated program' := by
  intro out out'
  have htokens : tokensOf source' = tokensOf source := hlayout.tokens_eq 0 0
  let c := Comparison.placeless store
  have hsame : Store.Same c store.identity store store :=
    hstore.map (fun _ _ _ => trivial) ⟨#[], by simp [c, Comparison.placeless]⟩
  have hidentity : store.identity.scopes scope scope := ⟨hscope, rfl⟩
  obtain ⟨w, hgrows, hafter, hresult⟩ := limits.same_run_of_tokens (c := c) (fun _ _ => trivial)
    htokens hprogram hidentity store.identity store store (.refl _) hsame
  -- both runs make as many scopes and closures, so everything stands for itself in the end too
  obtain rfl : w = out.2.identity := by
    obtain ⟨⟨scopes, hscopes, hscopes', hnew⟩, closures, hclosures, hclosures', hnewer⟩ := hgrows
    exact Correspondence.Grows.identity
      ⟨⟨scopes, hscopes, hscopes, hnew⟩, closures, hclosures, hclosures, hnewer⟩
  obtain ⟨since, hprinted, hprinted'⟩ := hafter.printed
  have hequal : out'.2.printed = out.2.printed := hprinted'.trans hprinted.symm
  have htold : ∃ since, out.2.printed = #[] ++ since ∧ out'.2.printed = #[] ++ since :=
    ⟨out.2.printed, by rw [Array.empty_append], by rw [Array.empty_append, hequal]⟩
  refine ⟨hequal, hresult.map (Comparison.spans_le_loose _ _), ?_, ?_⟩
  · exact hafter.map (Comparison.spans_le_loose _ _) htold
  · intro limit program hparse
    obtain ⟨program', hparse', hrelocated⟩ := Reader.parse_of_tokens htokens hparse
    exact ⟨program', hparse', (Expr.plain_of_parse hparse).alike (hrelocated out.2.identity),
      hrelocated⟩

/-- Comments and line feeds between the tokens change the place of a mistake and nothing else.  A
    hash sign within quotation marks begins no comment. -/
theorem Limits.layout_irrelevant_comments :
    let source := "do(print(\"a # b\"), x)"
    let source' := "# all\ndo (print( \"a # b\" ), # one\n\tx\n)"
    let out := Limits.run ⟨20, 0⟩ source Process.fresh.globals Process.fresh.store
    let out' := Limits.run ⟨20, 0⟩ source' Process.fresh.globals Process.fresh.store
    out.1 = .error (.mistake (.unbound "x") (some ⟨19, 20⟩)) ∧
      out'.1 = .error (.mistake (.unbound "x") (some ⟨35, 36⟩)) ∧
      out.2.printed = #["a # b"] ∧ out'.2.printed = #["a # b"] ∧
      Store.Same (.loose #[]) out.2.identity out.2 out'.2 ∧
      ∃ program program', Expr.parse 20 source = .ok program ∧
        Expr.parse 20 source' = .ok program' ∧ program.alike program' = true := by
  intro source source' out out'
  obtain ⟨program, hparse⟩ : ∃ program, Expr.parse 20 source = .ok program := ⟨_, by cbv⟩
  have hlayout : Grammar.Relaid source.toList source'.toList :=
    (Reader.relaid_iff_tokens hparse source').2 (by cbv)
  have hprinted : out.2.printed = #["a # b"] := by
    simp only [out, source]
    cbv
  have hout : out.1 = .error (.mistake (.unbound "x") (some ⟨19, 20⟩)) := by
    simp only [out, source]
    cbv
  have hout' : out'.1 = .error (.mistake (.unbound "x") (some ⟨35, 36⟩)) := by
    simp only [out', source']
    cbv
  obtain ⟨hequal, -, hafter, htrees⟩ := Limits.layout_irrelevant ⟨20, 0⟩ ⟨20, program, hparse⟩
    hlayout Process.sound_fresh Nat.zero_lt_one
  obtain ⟨program', hparse', halike, -⟩ := htrees 20 program hparse
  exact ⟨hout, hout', hprinted, hequal.trans hprinted, hafter, program, program', hparse,
    hparse', halike⟩

end CallLang
