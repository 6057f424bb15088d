/-
  CallLang/Proofs/Suffixes.lean
  =============================
  **Reading from a place on.**

  Reading can begin at any place of a text, and what stands before the place has no
  influence on it.  From there on a text has the tokens of its rest, so many characters
  later, and it is read as its rest is read, with all places moved
  (`Expr.readAt_eq_moved`).

  What is read is a phrase with gaps around it (`Expr.exists_phrase`).  So reading ends
  behind the place where it begins, in front of something that belongs neither to a gap nor
  to the phrase (`Expr.standsBetween`).
-/
import CallLang.Proofs.Refusals
import CallLang.Proofs.Spans
import CallLang.Proofs.Truncation

namespace CallLang

open Grammar

/-! ### Moving -/

def Lexeme.moved (offset : Nat) (lexeme : Lexeme) : Lexeme :=
  { lexeme with start := lexeme.start + offset, stop := lexeme.stop + offset }

/-- Why reading stops, if the text begins so many characters later. -/
def Stop.moved (offset : Nat) : Stop → Stop
  | .mistake cause span => .mistake cause (span.map (Span.moved offset))
  | stop => stop

theorem lexemesFrom_add (place offset : Nat) (chars : List Char) :
    lexemesFrom (place + offset) chars = (lexemesFrom place chars).map (Lexeme.moved offset) := by
  fun_induction lexemesFrom place chars with
  | case1 place => simp [lexemesFrom]
  | case2 place c rest hblank ih => rw [lexemesFrom, if_pos hblank, Nat.add_right_comm, ih]
  | case3 place rest comment hblank ih =>
      rw [lexemesFrom, if_neg hblank, if_pos rfl]
      simp only [Nat.add_right_comm _ offset]
      exact ih
  | case4 place rest contents stop hrest =>
      rw [lexemesFrom, if_neg (by decide), if_neg (by decide), if_pos rfl]
      split
      · simp only [Nat.add_right_comm _ offset, List.map_cons, List.map_nil, Lexeme.moved]
        rfl
      · next hcons =>
          rw [hrest] at hcons
          cases hcons
  | case5 place rest contents stop c after hrest hblank hhash ih =>
      rw [lexemesFrom, if_neg (by decide), if_neg (by decide), if_pos rfl]
      split
      · next hnil =>
          rw [hrest] at hnil
          cases hnil
      · next hcons =>
          rw [hrest] at hcons
          obtain ⟨rfl, rfl⟩ := List.cons.inj hcons
          simp only [Nat.add_right_comm _ offset, List.map_cons, Lexeme.moved]
          rw [← ih]
  | case6 place c rest hblank hhash hquote token hmark ih =>
      rw [lexemesFrom_mark token _ _ hmark, List.map_cons, ← ih]
      simp only [Nat.add_right_comm _ offset, Lexeme.moved]
  | case7 place c rest hblank hhash hquote hmark digits hdigits stop ih =>
      rw [lexemesFrom_run _ _ (isWordChar_of_unmarked hblank hhash hquote hmark), if_pos hdigits]
      simp only [Nat.add_right_comm _ offset, List.map_cons, Lexeme.moved]
      rw [← ih]
  | case8 place c rest hblank hhash hquote hmark hword name stop ih =>
      rw [lexemesFrom_run _ _ (isWordChar_of_unmarked hblank hhash hquote hmark), if_neg hword]
      simp only [Nat.add_right_comm _ offset, List.map_cons, Lexeme.moved]
      rw [← ih]

theorem Expr.allMoved_eq_map (offset : Nat) (es : List Expr) :
    Expr.allMoved offset es = es.map (Expr.moved offset) := by
  induction es with
  | nil => rfl
  | cons e es ih => rw [Expr.allMoved, ih, List.map_cons]

/-- Everything but a hole moves with its place. -/
theorem Expr.span_moved {e : Expr} (h : e ≠ .hole) (offset : Nat) :
    (e.moved offset).span = e.span.moved offset := by
  cases e with
  | hole => exact absurd rfl h
  | _ => rfl

namespace Reader

def Stage.moved (offset : Nat) : Stage → Stage
  | .awaiting opening => .awaiting opening
  | .holding e => .holding (e.moved offset)

def Frame.moved (offset : Nat) (frame : Frame) : Frame where
  operator := frame.operator.moved offset
  arguments := frame.arguments.map (Expr.moved offset)
  level := frame.level

/-- What reading comes to if the text begins so many characters later.  What it yields besides
    an expression moves in its own way. -/
def moved {α : Type} (offset : Nat) (move : α → α) :
    Except Stop (Expr × α) → Except Stop (Expr × α)
  | .error stop => .error (stop.moved offset)
  | .ok (e, behind) => .ok (e.moved offset, move behind)

/-- Whether the reader has no hole in hand and calls none.  A hole has no place that could
    move. -/
structure Solid (stage : Stage) (frames : List Frame) : Prop where
  stage : ∀ e, stage = .holding e → e ≠ .hole
  frames : ∀ frame ∈ frames, frame.operator ≠ .hole

section

variable {limit offset : Nat} {text : List Char} {lexeme : Lexeme} {stage stage' : Stage}
  {frames frames' : List Frame} {level level' : Nat}

theorem moved_refuse {α : Type} (move : α → α) (cause : Mistake) (start stop : Nat) :
    moved offset move (refuse cause start stop) = refuse cause (start + offset) (stop + offset) :=
  rfl

theorem read_awaiting_nil {opening : Opening} :
    read limit text (.awaiting opening) frames level [] =
      refuse .endOfText text.length text.length := rfl

theorem read_holding_nil {e : Expr} {frame : Frame} :
    read limit text (.holding e) (frame :: frames) level [] =
      refuse .openCall text.length text.length := rfl

theorem lineFrom_add (text : List Char) (place offset : Nat) :
    lineFrom text (place + offset) = lineFrom (text.drop offset) place := by
  rw [lineFrom, lineFrom, List.drop_drop, Nat.add_comm]

theorem Frame.moved_close {frame : Frame} (h : frame.operator ≠ .hole) (stop : Nat) :
    (frame.close stop).moved offset = (frame.moved offset).close (stop + offset) := by
  rw [Frame.close, Frame.close, Expr.moved, Expr.allMoved_eq_map, Frame.moved, List.map_reverse,
    Expr.span_moved h]
  rfl

theorem atom_moved {e : Expr} (h : atom (text.drop offset) lexeme = .ok e) :
    atom text (lexeme.moved offset) = .ok (e.moved offset) ∧ e ≠ .hole := by
  obtain ⟨token, start, stop⟩ := lexeme
  cases token with
  | text contents =>
      obtain rfl := Except.ok.inj h
      exact ⟨rfl, by rintro ⟨⟩⟩
  | word name =>
      obtain rfl := Except.ok.inj h
      exact ⟨rfl, by rintro ⟨⟩⟩
  | numeral digits =>
      simp only [atom, Lexeme.moved] at h ⊢
      split at h
      · cases h
      · next hshort =>
          obtain rfl := Except.ok.inj h
          exact ⟨if_neg hshort, by rintro ⟨⟩⟩
  | _ => cases h

theorem Move.moved (h : Move (text.drop offset) lexeme stage frames level stage' frames' level')
    (hsolid : Solid stage frames) :
    Move text (lexeme.moved offset) (stage.moved offset) (frames.map (Frame.moved offset)) level
        (stage'.moved offset) (frames'.map (Frame.moved offset)) level' ∧
      Solid stage' frames' := by
  cases h with
  | atom e hatom =>
      obtain ⟨hmoved, hhole⟩ := atom_moved hatom
      refine ⟨.atom _ hmoved, ?_, hsolid.frames⟩
      rintro _ ⟨rfl⟩
      exact hhole
  | @emptyList frame frames level hclosing =>
      obtain ⟨hframe, hframes⟩ := List.forall_mem_cons.1 hsolid.frames
      refine ⟨?_, ?_, hframes⟩
      · rw [Stage.moved, Stage.moved, Frame.moved_close hframe]
        exact .emptyList hclosing
      · rintro _ ⟨rfl⟩
        exact nofun
  | opening hopening =>
      refine ⟨.opening hopening, nofun, ?_⟩
      exact List.forall_mem_cons.2 ⟨hsolid.stage _ rfl, hsolid.frames⟩
  | comma hcomma =>
      exact ⟨.comma hcomma, nofun, List.forall_mem_cons.2 (List.forall_mem_cons.1 hsolid.frames)⟩
  | @closing e frame frames level hclosing =>
      obtain ⟨hframe, hframes⟩ := List.forall_mem_cons.1 hsolid.frames
      have hpush : (frame.push e).operator ≠ .hole := hframe
      refine ⟨?_, ?_, hframes⟩
      · rw [Stage.moved, Stage.moved, Frame.moved_close hpush]
        exact .closing hclosing
      · rintro _ ⟨rfl⟩
        exact nofun

theorem Refused.moved (h : Refused stage frames lexeme.token) :
    Refused (stage.moved offset) (frames.map (Frame.moved offset)) (lexeme.moved offset).token := by
  obtain ⟨token, start, stop⟩ := lexeme
  cases h with
  | closing h => exact .closing fun hopening => by rw [h hopening, List.map_nil]
  | opening => exact .opening
  | comma => exact .comma
  | unclosed => exact .unclosed
  | separator hopening hcomma hclosing => exact .separator hopening hcomma hclosing

theorem refusal_moved (text : List Char) (stage : Stage) (lexeme : Lexeme) (offset : Nat) :
    refusal text (stage.moved offset) (lexeme.moved offset) =
      refusal (text.drop offset) stage lexeme := by
  obtain ⟨token, start, stop⟩ := lexeme
  cases stage with
  | holding e => rfl
  | awaiting opening => simp only [refusal, Stage.moved, Lexeme.moved, lineFrom_add]

/-- The rest of a text is read within the text as it is read on its own, so many characters
    later. -/
theorem read_moved (hoffset : offset ≤ text.length) (hsolid : Solid stage frames)
    (tokens : List Lexeme) :
    read limit text (stage.moved offset) (frames.map (Frame.moved offset)) level
        (tokens.map (Lexeme.moved offset)) =
      moved offset (List.map (Lexeme.moved offset))
        (read limit (text.drop offset) stage frames level tokens) := by
  induction tokens generalizing stage frames level with
  | nil =>
      have hend : (text.drop offset).length + offset = text.length := by
        rw [List.length_drop, Nat.sub_add_cancel hoffset]
      rw [List.map_nil]
      cases stage with
      | awaiting opening =>
          rw [Stage.moved, read_awaiting_nil, read_awaiting_nil, moved_refuse, hend]
      | holding e =>
          cases frames with
          | nil => rfl
          | cons frame frames =>
              rw [Stage.moved, List.map_cons, read_holding_nil, read_holding_nil, moved_refuse,
                hend]
  | cons lexeme rest ih =>
      rw [List.map_cons]
      cases met (text.drop offset) lexeme stage frames level with
      | move hmove =>
          obtain ⟨hmoved, hsolid'⟩ := hmove.moved hsolid
          by_cases hlevel : lexeme.token = .opening → level < limit
          · rw [read_of_move hmove hlevel, read_of_move hmoved hlevel, ih hsolid']
          · obtain ⟨hopening, hdeep⟩ := Classical.not_imp.1 hlevel
            rw [read_tooDeep hmove hopening hdeep, read_tooDeep hmoved hopening hdeep]
            rfl
      | long htoken hlong =>
          rw [read_long htoken hlong]
          exact read_long htoken hlong
      | refused hrefused =>
          rw [read_eq_refusal hrefused, read_eq_refusal hrefused.moved, refusal_moved,
            moved_refuse, Nat.add_right_comm]
          rfl
      | done hopening =>
          rw [read_done hopening]
          exact read_done hopening

end

end Reader

/-! ### Tokens from a place on -/

section

variable {text : String} {place : Nat} {c : Char}

theorem lexemesAt_eq (text : String) (place : Nat) :
    lexemesAt text place = lexemesFrom place (text.toList.drop place) := by
  by_cases hplace : place ≤ text.length
  · rw [lexemesAt, Nat.min_eq_left hplace]
  · have hdrop : text.toList.drop place = [] := by
      rw [List.drop_eq_nil_iff, String.length_toList]
      omega
    simp [lexemesAt, hdrop, lexemesFrom]

theorem lexemesAt_end (h : text.length ≤ place) : lexemesAt text place = [] := by
  rw [← String.length_toList] at h
  rw [lexemesAt_eq, List.drop_eq_nil_of_le h, lexemesFrom]

theorem lt_length_of_char (h : text.toList[place]? = some c) : place < text.length := by
  obtain ⟨hlt, -⟩ := List.getElem?_eq_some_iff.1 h
  rwa [String.length_toList] at hlt

theorem lexemesAt_mark (token : Token) (hmark : Token.ofMark? c = some token)
    (h : text.toList[place]? = some c) :
    lexemesAt text place =
      { token, start := place, stop := place + 1 } :: lexemesAt text (place + 1) := by
  obtain ⟨hlt, rfl⟩ := List.getElem?_eq_some_iff.1 h
  rw [lexemesAt_eq, List.drop_eq_getElem_cons hlt, lexemesFrom_mark token _ _ hmark, lexemesAt_eq]

/-- A character that belongs to no gap begins the next token. -/
theorem exists_lexemesAt (hgap : EndsGap (text.toList.drop place))
    (h : text.toList[place]? = some c) :
    ∃ lexeme after, lexemesAt text place = lexeme :: after ∧ lexeme.start = place ∧
      Begins c lexeme.token := by
  obtain ⟨hlt, rfl⟩ := List.getElem?_eq_some_iff.1 h
  rw [List.drop_eq_getElem_cons hlt] at hgap
  rw [lexemesAt_eq, List.drop_eq_getElem_cons hlt]
  exact exists_lexeme place hgap

theorem exists_skipBlanks (hplace : place ≤ text.length) :
    ∃ (gap : Gap) (rest : List Char), gap.Before rest.head? ∧ EndsGap rest ∧
      text.toList.drop place = gap.chars ++ rest ∧
      skipBlanks text place = place + gap.chars.length := by
  obtain ⟨gap, rest, hgap, hrest, hdrop, hstart⟩ := exists_gap place (text.toList.drop place)
  refine ⟨gap, rest, hgap, hrest, hdrop, ?_⟩
  rw [← lexemesAt_eq] at hstart
  unfold skipBlanks
  cases htokens : lexemesAt text place with
  | cons lexeme after => exact hstart lexeme (by rw [htokens]; rfl)
  | nil =>
      rw [lexemesAt_eq, hdrop, lexemesFrom_gap place hgap] at htokens
      obtain rfl := eq_nil_of_endsGap hrest htokens
      have hlength := congrArg List.length hdrop
      rw [List.length_drop, String.length_toList, List.append_nil] at hlength
      change text.length = place + gap.chars.length
      omega

/-- Skipping blanks and comments comes to the next token, or to the end of the text, and skips no
    token. -/
theorem skipBlanks_spec (hplace : place ≤ text.length) :
    place ≤ skipBlanks text place ∧ skipBlanks text place ≤ text.length ∧
      EndsGap (text.toList.drop (skipBlanks text place)) ∧
      lexemesAt text (skipBlanks text place) = lexemesAt text place := by
  obtain ⟨gap, rest, hgap, hrest, hdrop, hskip⟩ := exists_skipBlanks hplace
  have hbehind : text.toList.drop (skipBlanks text place) = rest := by
    rw [hskip, ← List.drop_drop, hdrop, List.drop_left]
  have hlength := congrArg List.length hdrop
  rw [List.length_drop, String.length_toList, List.length_append] at hlength
  refine ⟨hskip ▸ Nat.le_add_right _ _, ?_, hbehind ▸ hrest, ?_⟩
  · omega
  · rw [lexemesAt_eq, lexemesAt_eq, hbehind, hdrop, lexemesFrom_gap place hgap, hskip]

end

/-! ### What is read from a place on -/

namespace Reader

variable {limit level : Nat} {text : List Char} {stage : Stage} {frames : List Frame}

/-- What the reader leaves does not begin with an argument list. -/
theorem not_opening_of_read {tokens rest : List Lexeme} {e : Expr}
    (h : read limit text stage frames level tokens = .ok (e, rest)) :
    ∀ lexeme ∈ rest.head?, lexeme.token ≠ .opening := by
  induction tokens generalizing stage frames level with
  | nil =>
      rcases finished_or_unfinished stage frames with ⟨other, rfl, rfl⟩ | hunfinished
      · obtain ⟨rfl, rfl⟩ := Prod.mk.inj (Except.ok.inj h)
        exact nofun
      · obtain ⟨cause, -, hread⟩ := read_unfinished text hunfinished
        rw [hread] at h
        cases h
  | cons lexeme tokens ih =>
      rcases read_cons_ok h with ⟨stage', frames', level', -, hread⟩ |
        ⟨other, -, -, hopening, hresult⟩
      · exact ih hread
      · obtain ⟨rfl, rfl⟩ := Prod.mk.inj hresult
        simpa using hopening

/-- Reading ends in front of the first token that is left, or at the end of the text. -/
theorem exists_read {source : String} {tokens : List Lexeme} {e : Expr} {next : Nat}
    (h : readFrom limit source stage tokens = .ok (e, next)) :
    ∃ rest, read limit source.toList stage [] 0 tokens = .ok (e, rest) ∧
      next = (rest.head?.map Lexeme.start).getD source.length := by
  rw [readFrom] at h
  rcases hread : read limit source.toList stage [] 0 tokens with stop | ⟨other, _ | ⟨lexeme, rest⟩⟩
  all_goals
    rw [hread] at h
    cases h
  · exact ⟨[], rfl, rfl⟩
  · exact ⟨lexeme :: rest, rfl, rfl⟩

theorem read_of_readFrom_error {source : String} {tokens : List Lexeme} {stop : Stop}
    (h : readFrom limit source stage tokens = .error stop) :
    read limit source.toList stage [] 0 tokens = .error stop := by
  rw [readFrom] at h
  rcases hread : read limit source.toList stage [] 0 tokens with other | ⟨e, _ | ⟨lexeme, rest⟩⟩
  all_goals
    rw [hread] at h
    cases h
  rfl

end Reader

namespace Expr

variable {limit place next : Nat} {text : String} {e : Expr}

/-- What is read from a place of a text on is what the rest of the text is read as, so many
    characters later. -/
theorem readAt_eq_moved (hplace : place ≤ text.length) (limit : Nat) :
    readAt limit text place =
      Reader.moved place (· + place)
        (readAt limit (String.ofList (text.toList.drop place)) 0) := by
  rw [← String.length_toList] at hplace
  have hend : (text.toList.drop place).length + place = text.toList.length := by
    rw [List.length_drop, Nat.sub_add_cancel hplace]
  have hsolid : Reader.Solid (.awaiting .start) [] := ⟨nofun, nofun⟩
  have htokens : lexemesAt text place =
      (lexemesFrom 0 (text.toList.drop place)).map (Lexeme.moved place) := by
    rw [lexemesAt_eq, ← lexemesFrom_add, Nat.zero_add]
  have hrest : lexemesAt (String.ofList (text.toList.drop place)) 0 =
      lexemesFrom 0 (text.toList.drop place) := by
    rw [lexemesAt_eq, List.drop_zero, String.toList_ofList]
  have hread : Reader.read limit text.toList (.awaiting .start) [] 0 (lexemesAt text place) = _ :=
    htokens ▸ Reader.read_moved hplace hsolid (lexemesFrom 0 (text.toList.drop place))
  rw [readAt, readAt, Reader.readFrom, Reader.readFrom, hread, hrest, String.toList_ofList]
  rcases Reader.read limit (text.toList.drop place) (.awaiting .start) [] 0
    (lexemesFrom 0 (text.toList.drop place)) with stop | ⟨e, _ | ⟨lexeme, tokens⟩⟩
  · rfl
  · have hlength : text.length = (String.ofList (text.toList.drop place)).length + place := by
      rw [String.length_ofList, hend, String.length_toList]
    exact congrArg (fun behind => Except.ok (e.moved place, behind)) hlength
  · rfl

/-- What reading succeeds with is a phrase with gaps around it.  What comes next, if anything
    does, begins neither a gap nor an argument list. -/
theorem exists_phrase (hplace : place ≤ text.length)
    (h : readAt limit text place = .ok (e, next)) :
    ∃ (before : Gap) (phrase : Phrase) (behind : Gap), phrase.Proper ∧
      before.Before phrase.chars.head? ∧ behind.Before text.toList[next]? ∧
      e = phrase.expr (place + before.chars.length) ∧
      next = place + before.chars.length + phrase.chars.length + behind.chars.length ∧
      text.toList.drop place =
        before.chars ++ (phrase.chars ++ (behind.chars ++ text.toList.drop next)) ∧
      EndsGap (text.toList.drop next) ∧ text.toList[next]? ≠ some '(' ∧
      Reader.read limit text.toList (.awaiting .start) [] 0 (lexemesAt text place) =
        .ok (e, lexemesAt text next) := by
  obtain ⟨tokens, hread, hnext⟩ := Reader.exists_read h
  have hopening := Reader.not_opening_of_read hread
  have hfinishes := hread
  rw [lexemesAt_eq] at hfinishes
  obtain ⟨place', rest, rfl, hend, hrest, before, a, more, ha, hbefore, hdrop, cs, behind, hcs,
    hbehind, rfl, rfl⟩ := Reader.finishes_of_read hfinishes
  obtain rfl : next = place' := by
    cases htokens : lexemesFrom place' rest with
    | nil =>
        obtain rfl := eq_nil_of_endsGap hrest htokens
        rw [List.length_drop, String.length_toList, Nat.add_sub_cancel' hplace] at hend
        rw [hnext, htokens]
        exact hend.symm
    | cons lexeme after =>
        rw [hnext, htokens]
        exact start_of_endsGap hrest htokens
  have hhead : (Phrase.mk a cs).chars.head? = a.chars.head? := by
    obtain ⟨c, chars, hcons, -⟩ := Atom.chars_eq_cons ha.1
    rw [Phrase.chars, hcons]
    rfl
  rw [← List.append_assoc a.chars, ← Phrase.chars] at hdrop
  have hlength := congrArg List.length hdrop
  simp only [List.length_append] at hlength
  have hplaces : next = place + before.chars.length + (Phrase.mk a cs).chars.length +
      behind.chars.length := by
    omega
  obtain rfl : text.toList.drop next = rest := by
    rw [hplaces, Nat.add_assoc, Nat.add_assoc, ← List.drop_drop, hdrop, ← List.append_assoc,
      ← List.append_assoc, List.drop_left']
    simp only [List.length_append]
    omega
  rw [List.head?_drop] at hbehind
  refine ⟨before, .mk a cs, behind, ⟨ha, hcs⟩, hhead ▸ hbefore, hbehind, rfl, hplaces, hdrop,
    hrest, ?_, ?_⟩
  · intro hbracket
    rw [← lexemesAt_eq, lexemesAt_mark .opening rfl hbracket] at hopening
    exact hopening _ rfl rfl
  · rw [hread, lexemesAt_eq]

theorem lt_of_readAt (h : readAt limit text place = .ok (e, next)) :
    place < next ∧ next ≤ text.length := by
  by_cases hplace : place ≤ text.length
  · obtain ⟨before, phrase, behind, hproper, -, -, -, rfl, hdrop, -⟩ := exists_phrase hplace h
    obtain ⟨c, chars, hcons, -⟩ := phrase.chars_eq_cons hproper
    have hlength := congrArg List.length hdrop
    have hpositive := congrArg List.length hcons
    simp only [List.length_drop, List.length_append, List.length_cons, String.length_toList]
      at hlength hpositive
    omega
  · rw [readAt, Reader.readFrom, lexemesAt_end (Nat.le_of_not_le hplace)] at h
    cases h

/-- Whether an expression is what stands between two places of a text, with nothing but blanks
    and comments before it and behind it.  The text does not go on with more of them, nor with
    an argument list. -/
structure StandsBetween (text : List Char) (e : Expr) (place next : Nat) : Prop where
  before : Text.Blank text place e.span.start
  start_lt : e.span.start < next
  behind : Text.Blank text e.span.stop next
  next_le : next ≤ text.length
  ended : ∀ c, text[next]? = some c → Text.isBlank c = false ∧ c ≠ '#' ∧ c ≠ '('

theorem standsBetween (hplace : place ≤ text.length)
    (h : readAt limit text place = .ok (e, next)) : e.StandsBetween text.toList place next := by
  obtain ⟨before, phrase, behind, hproper, hbefore, hbehind, rfl, hnext, hdrop, hgap, hbracket,
    -⟩ := exists_phrase hplace h
  have htake : (text.toList.take place).length = place := by
    rw [List.length_take, String.length_toList, Nat.min_eq_left hplace]
  have htext : text.toList = text.toList.take place ++
      (before.chars ++ (phrase.chars ++ (behind.chars ++ text.toList.drop next))) := by
    rw [← hdrop, List.take_append_drop]
  have hfront : (text.toList.take place ++ (before.chars ++ phrase.chars)).length =
      place + before.chars.length + phrase.chars.length := by
    rw [List.length_append, List.length_append, htake, Nat.add_assoc]
  obtain ⟨c, chars, hcons, -⟩ := phrase.chars_eq_cons hproper
  refine ⟨?_, ?_, ?_, ?_, ?_⟩
  · rw [phrase.span_expr]
    have hblank := Text.blank_of_gap (by rwa [Phrase.head?_append hproper]) htext
    rwa [htake] at hblank
  · rw [phrase.span_expr, hnext, hcons, List.length_cons]
    change place + before.chars.length < _
    omega
  · rw [phrase.span_expr, hnext, ← hfront]
    refine Text.blank_of_gap (by rwa [List.head?_drop]) ?_
    simpa using htext
  · rw [String.length_toList]
    exact (lt_of_readAt h).2
  · intro c hc
    rw [EndsGap, List.head?_drop] at hgap
    refine ⟨(hgap c hc).1, (hgap c hc).2, ?_⟩
    rintro rfl
    exact hbracket hc

end Expr

end CallLang
