/-
  CallLang/Proofs/Descent.lean
  ============================
  **Reading as a descent.**

  The reader keeps open calls on a stack, but what it does is a descent.  An expression is
  an atom with the argument lists behind it (`Expr.readAt_eq`), these are read one after
  another (`Expr.readCalls_eq`), and a list is read in rounds, an expression in each.  This
  rests on one fact about the stack: inside of open calls an expression is read as it is
  read on its own, but deeper (`Reader.read_inside`).

  Every round and every argument list takes up a character at least.  So the descent ends:
  no text is nested deeper than it is long, and within such a limit reading always comes to
  a result (`Expr.ended_descent`).
-/
import CallLang.Proofs.Suffixes

namespace CallLang

open Grammar

namespace Reader

/-! ### Inside of open calls -/

/-- An open call that stands so many levels deeper. -/
def Frame.deepened (depth : Nat) (frame : Frame) : Frame :=
  { frame with level := frame.level + depth }

section

variable {limit : Nat} {text : List Char} {lexeme : Lexeme} {stage stage' : Stage}
  {inner inner' : List Frame} {level level' : Nat}

theorem Move.inside (h : Move text lexeme stage inner level stage' inner' level') (depth : Nat)
    (outer : List Frame) :
    Move text lexeme stage (inner.map (Frame.deepened depth) ++ outer) (level + depth) stage'
      (inner'.map (Frame.deepened depth) ++ outer) (level' + depth) := by
  cases h with
  | atom e hatom => exact .atom e hatom
  | emptyList hclosing =>
      rw [Nat.add_right_comm]
      exact .emptyList hclosing
  | opening hopening =>
      rw [Nat.add_right_comm]
      exact .opening hopening
  | comma hcomma =>
      rw [Nat.add_right_comm]
      exact .comma hcomma
  | closing hclosing =>
      rw [Nat.add_right_comm]
      exact .closing hclosing

theorem Move.frames_ne_nil (h : Move text lexeme stage inner level stage' inner' level') :
    stage' = .awaiting .bracket → inner' ≠ [] := by
  rintro rfl
  cases h with
  | opening _ => exact List.cons_ne_nil _ _

theorem Refused.inside (h : Refused stage inner lexeme.token)
    (hstage : stage = .awaiting .bracket → inner ≠ []) (depth : Nat) (outer : List Frame) :
    Refused stage (inner.map (Frame.deepened depth) ++ outer) lexeme.token := by
  obtain ⟨token, start, stop⟩ := lexeme
  cases h with
  | closing h =>
      refine .closing fun hopening => ?_
      exact absurd (h hopening) (hstage (congrArg Stage.awaiting hopening))
  | opening => exact .opening
  | comma => exact .comma
  | unclosed => exact .unclosed
  | separator hopening hcomma hclosing => exact .separator hopening hcomma hclosing

/-- The level matters to argument lists only. -/
theorem read_of_level {e : Expr} {frames : List Frame} {tokens : List Lexeme}
    (h : ∀ lexeme ∈ tokens.head?, lexeme.token ≠ .opening) :
    read limit text (.holding e) frames level tokens =
      read limit text (.holding e) frames level' tokens := by
  cases tokens with
  | nil => cases frames <;> rfl
  | cons lexeme rest =>
      obtain ⟨token, start, stop⟩ := lexeme
      cases token with
      | opening => exact absurd rfl (h _ rfl)
      | _ => cases frames <;> rfl

/-- An expression is read inside of open calls as it is read on its own, but deeper, and the
    reader goes on from there.  The empty list is an exception, for it closes a call. -/
theorem read_inside (hstage : stage = .awaiting .bracket → inner ≠ []) (level depth behind : Nat)
    (outer : List Frame) (tokens : List Lexeme) :
    read (limit + depth) text stage (inner.map (Frame.deepened depth) ++ outer) (level + depth)
        tokens =
      match read limit text stage inner level tokens with
      | .error stop => .error stop
      | .ok (e, rest) => read (limit + depth) text (.holding e) outer behind rest := by
  induction tokens generalizing stage inner level with
  | nil =>
      cases stage with
      | awaiting opening => rfl
      | holding e =>
          cases inner with
          | cons frame inner => rfl
          | nil => exact read_of_level nofun
  | cons lexeme tokens ih =>
      cases met text lexeme stage inner level with
      | move hmove =>
          by_cases hlevel : lexeme.token = .opening → level < limit
          · rw [read_of_move hmove hlevel, ← ih hmove.frames_ne_nil]
            exact read_of_move (hmove.inside depth outer) fun hopening =>
              Nat.add_lt_add_right (hlevel hopening) depth
          · obtain ⟨hopening, hdeep⟩ := Classical.not_imp.1 hlevel
            rw [read_tooDeep hmove hopening hdeep]
            exact read_tooDeep (hmove.inside depth outer) hopening fun hlt =>
              hdeep (Nat.lt_of_add_lt_add_right hlt)
      | long htoken hlong => rw [read_long htoken hlong, read_long htoken hlong]
      | refused hrefused =>
          rw [read_eq_refusal hrefused, read_eq_refusal (hrefused.inside hstage depth outer)]
          rfl
      | done hopening =>
          rw [read_done hopening]
          refine read_of_level ?_
          rintro _ ⟨rfl⟩
          exact hopening

/-- Behind an argument list the next one of the chain is read as it is read on its own, but one
    level deeper. -/
theorem read_deeper {e : Expr} (tokens : List Lexeme) :
    read (limit + 1) text (.holding e) [] 1 tokens = read limit text (.holding e) [] 0 tokens := by
  have hstage : Stage.holding e = .awaiting .bracket → ([] : List Frame) ≠ [] := nofun
  refine (read_inside hstage 0 1 0 [] tokens).trans ?_
  cases hread : read limit text (.holding e) [] 0 tokens with
  | error stop => rfl
  | ok result =>
      obtain ⟨other, _ | ⟨lexeme, rest⟩⟩ := result
      · rfl
      · exact read_done (not_opening_of_read hread lexeme rfl)

end

/-! ### Rounds -/

/-- The place of the argument behind a comma, or of the closing bracket, that comes after an
    argument.  An argument is read with the blanks behind it, so none are left to skip. -/
def nextArgument (text : String) (place : Nat) : Except Stop Nat :=
  match text.toList[place]? with
  | some ',' =>
    let next := skipBlanks text (place + 1)
    if text.toList[next]? = some ')' then refuse .nothingAfterComma next (next + 1) else .ok next
  | some ')' => .ok place
  | some _ => refuse .missingSeparator place (place + 1)
  | none => refuse .openCall place place

/-- One round of an argument list: reads the argument that is due at a place.  Yields it with the
    place of the next one or of the closing bracket. -/
def readArgument (limit : Nat) (text : String) (place : Nat) : Except Stop (Expr × Nat) :=
  match Expr.readAt limit text place with
  | .error stop => .error stop
  | .ok (argument, behind) =>
    match nextArgument text behind with
    | .error stop => .error stop
    | .ok next => .ok (argument, next)

section

variable {limit place behind next : Nat} {text : String} {e : Expr}

theorem le_of_nextArgument (h : nextArgument text behind = .ok next) :
    behind ≤ next ∧ next ≤ text.length ∧ EndsGap (text.toList.drop next) := by
  unfold nextArgument at h
  split at h
  · next hcomma =>
      obtain ⟨hle, hend, hgap, -⟩ := skipBlanks_spec (Nat.succ_le_of_lt (lt_length_of_char hcomma))
      dsimp only at h
      split at h
      · cases h
      · cases h
        exact ⟨Nat.le_of_succ_le hle, hend, hgap⟩
  · next hclosing =>
      cases h
      refine ⟨Nat.le_refl _, Nat.le_of_lt (lt_length_of_char hclosing), ?_⟩
      intro c hc
      rw [List.head?_drop, hclosing] at hc
      cases hc
      decide
  · cases h
  · cases h

theorem exists_readAt (h : readArgument limit text place = .ok (e, next)) :
    ∃ behind, Expr.readAt limit text place = .ok (e, behind) ∧
      nextArgument text behind = .ok next := by
  unfold readArgument at h
  rcases hread : Expr.readAt limit text place with stop | ⟨argument, behind⟩
  · rw [hread] at h
    cases h
  · rcases hnext : nextArgument text behind with stop | other
    all_goals
      simp only [hread, hnext] at h
      cases h
    exact ⟨behind, rfl, hnext⟩

/-- Every round of an argument list takes up a character at least. -/
theorem lt_of_readArgument (h : readArgument limit text place = .ok (e, next)) :
    place < next ∧ next ≤ text.length := by
  obtain ⟨behind, hread, hnext⟩ := exists_readAt h
  obtain ⟨hle, hend, -⟩ := le_of_nextArgument hnext
  exact ⟨Nat.lt_of_lt_of_le (Expr.lt_of_readAt hread).1 hle, hend⟩

theorem endsGap_of_readArgument (h : readArgument limit text place = .ok (e, next)) :
    EndsGap (text.toList.drop next) := by
  obtain ⟨behind, -, hnext⟩ := exists_readAt h
  exact (le_of_nextArgument hnext).2.2

end

/-- Reads the arguments of a list in rounds, from the place of the first one or of the closing
    bracket on.  Yields the arguments and the place behind the bracket. -/
def readArguments (limit : Nat) (text : String) (place : Nat) : Except Stop (List Expr × Nat) :=
  if text.toList[place]? = some ')' then .ok ([], place + 1)
  else
    match _hround : readArgument limit text place with
    | .error stop => .error stop
    | .ok (argument, next) =>
      match readArguments limit text next with
      | .error stop => .error stop
      | .ok (arguments, behind) => .ok (argument :: arguments, behind)
termination_by text.length - place
decreasing_by
  have hlt := lt_of_readArgument _hround
  omega

/-- Reads the argument list that comes next from a place on, if one does.  Yields the arguments
    and the place behind the list. -/
def readList (limit : Nat) (text : String) (place : Nat) :
    Except Stop (Option (List Expr × Nat)) :=
  let bracket := skipBlanks text place
  if text.toList[bracket]? = some '(' then
    if limit = 0 then .error (.breakdown .tooDeep)
    else (readArguments (limit - 1) text (skipBlanks text (bracket + 1))).map some
  else .ok none

section

variable {limit place behind next : Nat} {text : String} {e : Expr} {arguments : List Expr}

theorem lt_of_readArguments (h : readArguments limit text place = .ok (arguments, behind)) :
    place < behind ∧ behind ≤ text.length := by
  fun_induction readArguments limit text place generalizing arguments with
  | case1 place hclosing =>
      cases h
      exact ⟨Nat.lt_succ_self _, lt_length_of_char hclosing⟩
  | case2 place hclosing stop hround => cases h
  | case3 place hclosing argument next hround stop hmore ih => cases h
  | case4 place hclosing argument next hround arguments behind hmore ih =>
      cases h
      obtain ⟨hlt, hle⟩ := ih hmore
      exact ⟨Nat.lt_trans (lt_of_readArgument hround).1 hlt, hle⟩

/-- The first argument of a list, or its closing bracket, stands behind the opening one. -/
theorem lt_first (hplace : place ≤ text.length)
    (hopening : text.toList[skipBlanks text place]? = some '(') :
    place < skipBlanks text (skipBlanks text place + 1) ∧
      skipBlanks text (skipBlanks text place + 1) ≤ text.length := by
  obtain ⟨hle, -, -, -⟩ := skipBlanks_spec hplace
  obtain ⟨hlt, hend, -, -⟩ := skipBlanks_spec (Nat.succ_le_of_lt (lt_length_of_char hopening))
  exact ⟨Nat.lt_of_le_of_lt hle hlt, hend⟩

/-- Every argument list takes up a character at least. -/
theorem lt_of_readList (hplace : place ≤ text.length)
    (h : readList limit text place = .ok (some (arguments, behind))) :
    place < behind ∧ behind ≤ text.length := by
  rw [readList] at h
  split_ifs at h with hopening hlimit
  · rcases hread : readArguments (limit - 1) text (skipBlanks text (skipBlanks text place + 1))
      with stop | ⟨others, other⟩
    all_goals
      rw [hread] at h
      cases h
    obtain ⟨hlt, hle⟩ := lt_of_readArguments hread
    exact ⟨Nat.lt_trans (lt_first hplace hopening).1 hlt, hle⟩
  · cases h

/-! ### Rounds of the reader -/

/-- Where no argument list ends, it does not matter what the reader has met before. -/
theorem read_awaiting_start {opening : Opening} {frames : List Frame} {level : Nat}
    (hgap : EndsGap (text.toList.drop place)) (hchar : text.toList[place]? ≠ some ')') :
    read limit text.toList (.awaiting opening) frames level (lexemesAt text place) =
      read limit text.toList (.awaiting .start) frames level (lexemesAt text place) := by
  cases hc : text.toList[place]? with
  | none =>
      rw [List.getElem?_eq_none_iff, String.length_toList] at hc
      rw [lexemesAt_end hc]
      rfl
  | some c =>
      obtain ⟨lexeme, after, htokens, -, hbegins⟩ := exists_lexemesAt hgap hc
      have hclosing : lexeme.token ≠ .closing := by
        intro htoken
        rw [htoken] at hbegins
        exact hchar (hc.trans (congrArg some hbegins))
      rw [htokens, read_awaiting hclosing, read_awaiting hclosing]

/-- Behind an argument the reader goes on to the next one, or closes the list. -/
theorem read_nextArgument {frame : Frame} {frames : List Frame} {level : Nat}
    (hplace : place ≤ text.length) (hgap : EndsGap (text.toList.drop place))
    (hchar : text.toList[place]? ≠ some '(') :
    read limit text.toList (.holding e) (frame :: frames) level (lexemesAt text place) =
      match nextArgument text place with
      | .error stop => .error stop
      | .ok next =>
        if text.toList[next]? = some ')' then
          read limit text.toList (.holding ((frame.push e).close (next + 1))) frames
            (frame.level + 1) (lexemesAt text (next + 1))
        else
          read limit text.toList (.awaiting .comma) (frame.push e :: frames) (frame.level + 1)
            (lexemesAt text next) := by
  generalize hnext : nextArgument text place = result
  unfold nextArgument at hnext
  split at hnext
  all_goals subst hnext
  · next hcomma =>
      obtain ⟨-, -, -, htokens⟩ := skipBlanks_spec (Nat.succ_le_of_lt (lt_length_of_char hcomma))
      rw [lexemesAt_mark .comma rfl hcomma, read_comma, ← htokens]
      by_cases hclosing : text.toList[skipBlanks text (place + 1)]? = some ')'
      · simp only [if_pos hclosing]
        rw [lexemesAt_mark .closing rfl hclosing]
        rfl
      · simp only [if_neg hclosing]
  · next hclosing =>
      rw [lexemesAt_mark .closing rfl hclosing, read_closing]
      exact (if_pos hclosing).symm
  · next c hcomma hclosing hc =>
      obtain ⟨lexeme, after, htokens, hstart, hbegins⟩ := exists_lexemesAt hgap hc
      have hrefused : Refused (.holding e) (frame :: frames) lexeme.token := by
        refine .separator ?_ ?_ ?_
        all_goals
          intro htoken
          rw [htoken] at hbegins
        · exact hchar (hc.trans (congrArg some hbegins))
        · exact hcomma hbegins
        · exact hclosing hbegins
      rw [htokens, read_eq_refusal hrefused, hstart]
      rfl
  · next hend =>
      rw [List.getElem?_eq_none_iff, String.length_toList] at hend
      rw [lexemesAt_end hend, read_holding_nil, String.length_toList, Nat.le_antisymm hend hplace]
      rfl

/-- The reader goes round with every argument of a list. -/
theorem read_argument {opening : Opening} {frame : Frame} (hplace : place ≤ text.length)
    (hgap : EndsGap (text.toList.drop place)) (hchar : text.toList[place]? ≠ some ')')
    (hlevel : frame.level = 0) :
    read (limit + 1) text.toList (.awaiting opening) [frame] 1 (lexemesAt text place) =
      match readArgument limit text place with
      | .error stop => .error stop
      | .ok (e, next) =>
        if text.toList[next]? = some ')' then
          read (limit + 1) text.toList (.holding ((frame.push e).close (next + 1))) [] 1
            (lexemesAt text (next + 1))
        else
          read (limit + 1) text.toList (.awaiting .comma) [frame.push e] 1
            (lexemesAt text next) := by
  have hstage : Stage.awaiting .start = .awaiting .bracket → ([] : List Frame) ≠ [] := nofun
  rw [read_awaiting_start hgap hchar, readArgument]
  refine (read_inside hstage 0 1 1 [frame] _).trans ?_
  rcases hread : Expr.readAt limit text place with stop | ⟨e, behind⟩
  · rw [read_of_readFrom_error hread]
  · obtain ⟨-, -, -, -, -, -, -, -, -, hbehind, hbracket, htokens⟩ :=
      Expr.exists_phrase hplace hread
    rw [htokens]
    simp only
    rw [read_nextArgument (Expr.lt_of_readAt hread).2 hbehind hbracket, hlevel]
    cases nextArgument text behind <;> rfl

/-- The arguments of a list are read in rounds. -/
theorem read_arguments {opening : Opening} {frame : Frame} (hplace : place ≤ text.length)
    (hgap : EndsGap (text.toList.drop place)) (hchar : text.toList[place]? ≠ some ')')
    (hlevel : frame.level = 0) :
    read (limit + 1) text.toList (.awaiting opening) [frame] 1 (lexemesAt text place) =
      match readArguments limit text place with
      | .error stop => .error stop
      | .ok (arguments, behind) =>
        read (limit + 1) text.toList
          (.holding (.call frame.operator (frame.arguments.reverse ++ arguments)
            ⟨frame.operator.span.start, behind⟩)) [] 1 (lexemesAt text behind) := by
  fun_induction readArguments limit text place generalizing opening frame with
  | case1 place hclosing => exact absurd hclosing hchar
  | case2 place hclosing stop hround => rw [read_argument hplace hgap hchar hlevel, hround]
  | case3 place hclosing argument next hround stop hmore ih =>
      have hpush : (frame.push argument).level = 0 := hlevel
      have hopen : text.toList[next]? ≠ some ')' := by
        intro hlast
        rw [readArguments, if_pos hlast] at hmore
        cases hmore
      rw [read_argument hplace hgap hchar hlevel, hround]
      simp only [if_neg hopen]
      rw [ih (lt_of_readArgument hround).2 (endsGap_of_readArgument hround) hopen hpush, hmore]
  | case4 place hclosing argument next hround arguments behind hmore ih =>
      have hpush : (frame.push argument).level = 0 := hlevel
      rw [read_argument hplace hgap hchar hlevel, hround]
      by_cases hlast : text.toList[next]? = some ')'
      · rw [readArguments, if_pos hlast] at hmore
        cases hmore
        simp only [if_pos hlast, Frame.close, Frame.push, List.reverse_cons]
      · simp only [if_neg hlast]
        rw [ih (lt_of_readArgument hround).2 (endsGap_of_readArgument hround) hlast hpush, hmore]
        simp [Frame.push]

/-- A bracket opens a list of arguments, behind which the reader goes on one level deeper. -/
theorem read_bracket (hplace : place ≤ text.length) (hgap : EndsGap (text.toList.drop place)) :
    read (limit + 1) text.toList (.awaiting .bracket)
        [{ operator := e, arguments := [], level := 0 }] 1 (lexemesAt text place) =
      match readArguments limit text place with
      | .error stop => .error stop
      | .ok (arguments, behind) =>
        read limit text.toList (.holding (.call e arguments ⟨e.span.start, behind⟩)) [] 0
          (lexemesAt text behind) := by
  by_cases hclosing : text.toList[place]? = some ')'
  · rw [readArguments, if_pos hclosing, lexemesAt_mark .closing rfl hclosing, read_emptyList]
    exact read_deeper _
  · rw [read_arguments hplace hgap hclosing rfl]
    rcases readArguments limit text place with stop | ⟨arguments, behind⟩
    · rfl
    · exact read_deeper _

end

/-- The atom that comes next from a place on. -/
def atomAt (text : String) (place : Nat) : Except Stop Expr :=
  match lexemesAt text place with
  | [] => refuse .endOfText text.length text.length
  | lexeme :: _ => atom text.toList lexeme

/-- An atom is no hole, and behind it the text goes on with the next token. -/
theorem exists_lexeme_of_atomAt {place : Nat} {text : String} {e : Expr}
    (hplace : place ≤ text.length) (h : atomAt text place = .ok e) :
    e ≠ .hole ∧ place ≤ e.span.stop ∧ e.span.stop ≤ text.length ∧
      ∃ lexeme, lexemesAt text place = lexeme :: lexemesAt text e.span.stop ∧
        atom text.toList lexeme = .ok e := by
  rw [atomAt] at h
  cases htokens : lexemesAt text place with
  | nil =>
      rw [htokens] at h
      cases h
  | cons lexeme after =>
      rw [htokens] at h
      rw [lexemesAt_eq] at htokens
      obtain ⟨gap, a, rest, ha, hgap, hdrop, rfl, rfl⟩ := eq_atom_of_lexemes htokens h
      have hstop : (a.expr (place + gap.chars.length)).span.stop =
          place + (gap.chars.length + a.chars.length) := by
        rw [← Nat.add_assoc]
        cases a <;> rfl
      have hhole : a.expr (place + gap.chars.length) ≠ .hole := by
        cases a <;> exact nofun
      have hrest : text.toList.drop (place + (gap.chars.length + a.chars.length)) = rest := by
        rw [← List.drop_drop, hdrop, ← List.append_assoc, ← List.length_append, List.drop_left]
      have hlength := congrArg List.length hdrop
      simp only [List.length_drop, List.length_append, String.length_toList] at hlength
      refine ⟨hhole, ?_, ?_, lexeme, ?_, h⟩
      · rw [hstop]
        exact Nat.le_add_right _ _
      · omega
      · rw [hstop, lexemesAt_eq, hrest, Nat.add_assoc]

end Reader

namespace Expr

variable {limit limit' place next : Nat} {text : String} {e : Expr}

/-- Behind an expression the reader is done, or it reads an argument list and goes on behind it.
    No hole is called. -/
theorem readCalls_eq (he : e ≠ .hole) (limit : Nat) (hplace : place ≤ text.length) :
    readCalls limit e text place =
      match Reader.readList limit text place with
      | .error stop => .error stop
      | .ok none => .ok (e, skipBlanks text place)
      | .ok (some (arguments, behind)) =>
        readCalls (limit - 1) (.call e arguments ⟨e.span.start, behind⟩) text behind := by
  have hcalls : readCalls limit e text place =
      Reader.readFrom limit text (.holding e) (lexemesAt text place) := by
    cases e with
    | hole => exact absurd rfl he
    | _ => rfl
  obtain ⟨-, hend, hgap, htokens⟩ := skipBlanks_spec hplace
  rw [hcalls, ← htokens, Reader.readList]
  by_cases hopening : text.toList[skipBlanks text place]? = some '('
  · obtain ⟨-, hend', hgap', htokens'⟩ :=
      skipBlanks_spec (Nat.succ_le_of_lt (lt_length_of_char hopening))
    rw [if_pos hopening, Reader.readFrom, lexemesAt_mark .opening rfl hopening,
      Reader.read_of_opening]
    cases limit with
    | zero => rfl
    | succ limit =>
        rw [if_pos (Nat.succ_pos limit), ← htokens', Reader.read_bracket hend' hgap',
          if_neg (Nat.succ_ne_zero limit), Nat.add_sub_cancel]
        rcases Reader.readArguments limit text (skipBlanks text (skipBlanks text place + 1))
          with stop | ⟨arguments, behind⟩ <;> rfl
  · rw [if_neg hopening, Reader.readFrom]
    cases hc : text.toList[skipBlanks text place]? with
    | none =>
        rw [List.getElem?_eq_none_iff, String.length_toList] at hc
        rw [lexemesAt_end hc, Reader.read_finished]
        exact congrArg (fun behind => Except.ok (e, behind)) (Nat.le_antisymm hc hend)
    | some c =>
        obtain ⟨lexeme, after, htokens', hstart, hbegins⟩ := exists_lexemesAt hgap hc
        have hdone : lexeme.token ≠ .opening := by
          intro htoken
          rw [htoken] at hbegins
          exact hopening (hc.trans (congrArg some hbegins))
        rw [htokens', Reader.read_done hdone]
        exact congrArg (fun behind => Except.ok (e, behind)) hstart

/-- An expression is an atom with the argument lists behind it. -/
theorem readAt_eq (limit : Nat) (hplace : place ≤ text.length) :
    readAt limit text place =
      match Reader.atomAt text place with
      | .error stop => .error stop
      | .ok e => readCalls limit e text e.span.stop := by
  rcases hatom : Reader.atomAt text place with stop | e
  · rw [readAt, Reader.readFrom]
    rw [Reader.atomAt] at hatom
    cases htokens : lexemesAt text place with
    | nil =>
        rw [htokens, ← String.length_toList] at hatom
        cases hatom
        rfl
    | cons lexeme after =>
        rw [htokens] at hatom
        by_cases hclosing : lexeme.token = .closing
        · obtain ⟨token, start, stop'⟩ := lexeme
          cases hclosing
          cases hatom
          rfl
        · rw [Reader.read_awaiting hclosing]
          simp only [hatom]
  · obtain ⟨hhole, -, -, lexeme, htokens, hlexeme⟩ := Reader.exists_lexeme_of_atomAt hplace hatom
    have hclosing : lexeme.token ≠ .closing := by
      intro htoken
      simp [Reader.atom, htoken, Reader.refuse] at hlexeme
    rw [readAt, Reader.readFrom, htokens, Reader.read_awaiting hclosing, hlexeme]
    cases e with
    | hole => exact absurd rfl hhole
    | _ => rfl

end Expr

/-! ### The end of the descent -/

theorem ended_of_error {α β : Type} {result : Except Stop α} {stop : Stop} (h : Ended result)
    (hresult : result = .error stop) : Ended (.error stop : Except Stop β) := by
  rw [hresult] at h
  exact ended_error h

namespace Reader

variable {limit place : Nat} {text : String}

theorem ended_refuse {α : Type} (cause : Mistake) (start stop : Nat) :
    Ended (refuse cause start stop : Except Stop α) := by
  rintro _ ⟨rfl⟩
  exact id

theorem ended_atomAt (text : String) (place : Nat) : Ended (atomAt text place) := by
  rw [atomAt]
  cases lexemesAt text place with
  | nil => exact ended_refuse _ _ _
  | cons lexeme after =>
      obtain ⟨token, start, stop⟩ := lexeme
      cases token with
      | text contents => exact ended_ok _
      | word name => exact ended_ok _
      | numeral digits =>
          change Ended (if maxDigits < digits.length then _ else _)
          split
          · exact ended_breakdown nofun
          · exact ended_ok _
      | _ => exact ended_refuse _ _ _

theorem ended_nextArgument (text : String) (place : Nat) : Ended (nextArgument text place) := by
  unfold nextArgument
  split
  · dsimp only
    split
    · exact ended_refuse _ _ _
    · exact ended_ok _
  · exact ended_ok _
  · exact ended_refuse _ _ _
  · exact ended_refuse _ _ _

theorem ended_readArgument (h : Ended (Expr.readAt limit text place)) :
    Ended (readArgument limit text place) := by
  unfold readArgument
  rcases hread : Expr.readAt limit text place with stop | ⟨argument, behind⟩
  · exact ended_of_error h hread
  · rcases hnext : nextArgument text behind with stop | next
    all_goals simp only [hnext]
    · exact ended_of_error (ended_nextArgument text behind) hnext
    · exact ended_ok _

/-- The arguments of a list come to an end if each of them does, for each stands behind the one
    before. -/
theorem ended_readArguments (hplace : place ≤ text.length)
    (h : ∀ other, place ≤ other → other ≤ text.length → Ended (Expr.readAt limit text other)) :
    Ended (readArguments limit text place) := by
  fun_induction readArguments limit text place with
  | case1 place hclosing => exact ended_ok _
  | case2 place hclosing stop hround =>
      exact ended_of_error (ended_readArgument (h place (Nat.le_refl _) hplace)) hround
  | case3 place hclosing argument next hround stop hmore ih =>
      obtain ⟨hlt, hle⟩ := lt_of_readArgument hround
      have hended := ih hle fun other hother => h other (Nat.le_trans (Nat.le_of_lt hlt) hother)
      exact ended_of_error hended hmore
  | case4 place hclosing argument next hround arguments behind hmore ih => exact ended_ok _

theorem ended_readList (hplace : place ≤ text.length) (hlimit : text.length ≤ place + limit)
    (h : limit ≠ 0 → ∀ other, place < other → other ≤ text.length →
      Ended (Expr.readAt (limit - 1) text other)) :
    Ended (readList limit text place) := by
  rw [readList]
  split_ifs with hopening hzero
  · obtain ⟨hlt, hle⟩ := lt_first hplace hopening
    omega
  · obtain ⟨hlt, hle⟩ := lt_first hplace hopening
    have hended := ended_readArguments hle fun other hother =>
      h hzero other (Nat.lt_of_lt_of_le hlt hother)
    rcases hread : readArguments (limit - 1) text (skipBlanks text (skipBlanks text place + 1))
      with stop | result
    · exact ended_of_error hended hread
    · exact ended_ok _
  · exact ended_ok _

end Reader

namespace Expr

variable {limit limit' place next : Nat} {text : String} {e : Expr}

/-- A descent is not cut off if it may go as deep as there are characters left. -/
theorem ended_descent (hplace : place ≤ text.length) (hlimit : text.length ≤ place + limit) :
    Ended (readAt limit text place) ∧ ∀ e, e ≠ .hole → Ended (readCalls limit e text place) := by
  induction limit using Nat.strongRecOn generalizing place with
  | ind limit ih =>
      have hcalls : ∀ {behind}, behind ≤ text.length → text.length ≤ behind + limit →
          ∀ e, e ≠ .hole → Ended (readCalls limit e text behind) := by
        intro behind hbehind hlimit e he
        have hlist := Reader.ended_readList hbehind hlimit fun hzero other hlt hle =>
          (ih (limit - 1) (by omega) hle (by omega)).1
        rw [readCalls_eq he limit hbehind]
        rcases hread : Reader.readList limit text behind with stop | _ | ⟨arguments, next⟩
        · exact ended_of_error hlist hread
        · exact ended_ok _
        · -- the next list of the chain stands behind this one, which was a level deeper
          obtain ⟨hlt, hle⟩ := Reader.lt_of_readList hbehind hread
          exact (ih (limit - 1) (by omega) hle (by omega)).2 _ nofun
      refine ⟨?_, hcalls hplace hlimit⟩
      have hatom := Reader.ended_atomAt text place
      rw [readAt_eq limit hplace]
      rcases hread : Reader.atomAt text place with stop | e
      · exact ended_of_error hatom hread
      · obtain ⟨hhole, hle, hend, -⟩ := Reader.exists_lexeme_of_atomAt hplace hread
        exact hcalls hend (by omega) e hhole

theorem readAt_of_le (hle : limit ≤ limit') (h : Ended (readAt limit text place)) :
    readAt limit' text place = readAt limit text place := by
  have hended : Ended (Reader.read limit text.toList (.awaiting .start) [] 0
      (lexemesAt text place)) := by
    rw [readAt, Reader.readFrom] at h
    rcases hread : Reader.read limit text.toList (.awaiting .start) [] 0 (lexemesAt text place)
      with stop | result
    · exact ended_of_error h (by rw [hread])
    · exact ended_ok _
  rw [readAt, readAt, Reader.readFrom, Reader.readFrom, Reader.read_of_le hle hended]

theorem ended_parse (hlimit : text.length ≤ limit) : Ended (parse limit text) := by
  have hended : Ended (readAt limit text 0) :=
    (ended_descent (Nat.zero_le _) (by rwa [Nat.zero_add])).1
  rw [parse]
  rcases hread : readAt limit text 0 with stop | ⟨e, next⟩
  · exact ended_of_error hended hread
  · simp only
    split
    · exact ended_ok _
    · exact Reader.ended_refuse _ _ _

/-- Reading from a place on has nothing to do with what stands before it, and what it reads ends
    in front of something else.  Each round of an argument list takes up a character at least,
    and so does each list of a chain of calls.  Hence reading and parsing come to a result for
    every text, which no limit affects that is not less than the number of characters. -/
theorem reading_advances (hplace : place ≤ text.length) (limit : Nat) :
    readAt limit text place =
        Reader.moved place (· + place)
          (readAt limit (String.ofList (text.toList.drop place)) 0) ∧
      (∀ e next, readAt limit text place = .ok (e, next) →
        e.StandsBetween text.toList place next) ∧
      (∀ argument next, Reader.readArgument limit text place = .ok (argument, next) →
        place < next ∧ next ≤ text.length) ∧
      (∀ e, e ≠ .hole → readCalls limit e text place =
        match Reader.readList limit text place with
        | .error stop => .error stop
        | .ok none => .ok (e, skipBlanks text place)
        | .ok (some (arguments, behind)) =>
          readCalls (limit - 1) (.call e arguments ⟨e.span.start, behind⟩) text behind) ∧
      (∀ arguments behind, Reader.readList limit text place = .ok (some (arguments, behind)) →
        place < behind ∧ behind ≤ text.length) ∧
      (∃ result, Ended result ∧
        ∀ limit', text.length ≤ place + limit' → readAt limit' text place = result) ∧
      ∃ result, Ended result ∧ ∀ limit', text.length ≤ limit' → parse limit' text = result := by
  refine ⟨readAt_eq_moved hplace limit, fun e next => standsBetween hplace,
    fun argument next => Reader.lt_of_readArgument, fun e he => readCalls_eq he limit hplace,
    fun arguments behind => Reader.lt_of_readList hplace, ?_, ?_⟩
  · have hended : Ended (readAt (text.length - place) text place) :=
      (ended_descent hplace (by omega)).1
    exact ⟨_, hended, fun limit' hlimit => readAt_of_le (by omega) hended⟩
  · have hended : Ended (parse text.length text) := ended_parse (Nat.le_refl _)
    exact ⟨_, hended, fun limit' hlimit => Reader.parse_of_le hlimit hended⟩

/-- Reading begins within a word and takes what is left of it for a numeral. -/
theorem reading_advances_chain :
    let text := "x12 (a, b)(c) # d\n)"
    let inner := Expr.call (.literal (.int 12) ⟨1, 3⟩) [.name "a" ⟨5, 6⟩, .name "b" ⟨8, 9⟩] ⟨1, 10⟩
    let outer := Expr.call inner [.name "c" ⟨11, 12⟩] ⟨1, 13⟩
    1 ≤ text.length ∧ readAt 2 text 1 = .ok (outer, 18) ∧
      Reader.moved 1 (· + 1) (readAt 2 "12 (a, b)(c) # d\n)" 0) = .ok (outer, 18) ∧
      outer.StandsBetween text.toList 1 18 ∧
      ∀ limit', text.length ≤ 1 + limit' → readAt limit' text 1 = .ok (outer, 18) := by
  intro text inner outer
  have hplace : 1 ≤ text.length := by decide
  have hread : readAt 2 text 1 = .ok (outer, 18) := by cbv
  have hrest : String.ofList (text.toList.drop 1) = "12 (a, b)(c) # d\n)" := by
    simp only [text]
    cbv
  obtain ⟨hlocal, hstands, -, -, -, ⟨result, -, hresult⟩, -⟩ := Expr.reading_advances hplace 2
  rw [hread, hrest] at hlocal
  have hdeep : readAt 18 text 1 = .ok (outer, 18) := by cbv
  refine ⟨hplace, hread, hlocal.symm, hstands outer 18 hread, fun limit' hlimit => ?_⟩
  rw [hresult limit' hlimit, ← hresult 18 (by decide), hdeep]

end Expr

end CallLang
