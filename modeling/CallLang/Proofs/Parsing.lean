/-
  CallLang/Proofs/Parsing.lean
  ============================
  **The parser and the grammar.**

  The reader goes through the tokens of a derivation and ends with its tree, each
  node at the place of its text, unless its argument lists are nested deeper than the
  limit (`parse_eq_of_derives`).  Conversely every tree that parsing yields has a
  derivation (`derives_of_parse`).
-/
import CallLang.Proofs.Lexing
import Mathlib.Data.List.Induction

namespace CallLang.Grammar

theorem Atom.decimal_eq (digits : List Char) : Text.digitsValue digits = Atom.decimal digits := by
  induction digits using List.reverseRecOn with
  | nil => rfl
  | append_singleton digits c ih =>
      simp only [Text.digitsValue, Atom.decimal, List.foldl_append, List.foldl_cons,
        List.foldl_nil, List.reverse_append, List.reverse_cons, List.reverse_nil,
        List.nil_append, List.cons_append, List.map_cons, Nat.ofDigits_cons] at ih ⊢
      rw [ih]
      omega

/-- The number of argument lists in a chain of calls. -/
def Calls.count : Calls → Nat
  | .none => 0
  | .call _ _ more => more.count + 1

def Phrase.count : Phrase → Nat
  | .mk _ calls => calls.count

mutual

/-- How deep argument lists are nested.  A list lies deeper than the lists before it in its
    chain. -/
def Phrase.depth : Phrase → Nat
  | .mk _ calls => calls.depth

def Calls.depth : Calls → Nat
  | .none => 0
  | .call _ operands more => max operands.depth more.depth + 1

def Operands.depth : Operands → Nat
  | .none _ => 0
  | .some slots => slots.depth

def Slots.depth : Slots → Nat
  | .last _ phrase _ => phrase.depth
  | .more _ phrase _ rest => max phrase.depth rest.depth

end

mutual

/-- Every level of nesting takes up a character. -/
theorem Phrase.depth_le (p : Phrase) : p.depth ≤ p.chars.length := by
  cases p with
  | mk atom calls =>
      rw [Phrase.depth, Phrase.chars, List.length_append]
      exact Nat.le_trans calls.depth_le (Nat.le_add_left _ _)

theorem Calls.depth_le (cs : Calls) : cs.depth ≤ cs.chars.length := by
  cases cs with
  | none => exact Nat.le_refl 0
  | call gap operands more =>
      have hoperands := operands.depth_le
      have hmore := more.depth_le
      simp only [Calls.depth, Calls.chars, List.length_append, List.length_cons]
      omega

theorem Operands.depth_le (o : Operands) : o.depth ≤ o.chars.length := by
  cases o with
  | none gap => exact Nat.zero_le _
  | some slots => exact slots.depth_le

theorem Slots.depth_le (ss : Slots) : ss.depth ≤ ss.chars.length := by
  cases ss with
  | last before phrase after =>
      have hphrase := phrase.depth_le
      simp only [Slots.depth, Slots.chars, List.length_append]
      omega
  | more before phrase after rest =>
      have hphrase := phrase.depth_le
      have hrest := rest.depth_le
      simp only [Slots.depth, Slots.chars, List.length_append, List.length_cons]
      omega

end

end CallLang.Grammar

namespace CallLang.Reader

open Grammar

variable {limit : Nat} {text : List Char}

/-! ### Steps of the reader -/

/-- Whether a token takes the reader from one stage to another, where the open calls
    and the level of the next argument list change as well. -/
inductive Move (text : List Char) (lexeme : Lexeme) :
    Stage → List Frame → Nat → Stage → List Frame → Nat → Prop where
  | atom {opening frames level} (e : Expr) (h : atom text lexeme = .ok e) :
      Move text lexeme (.awaiting opening) frames level (.holding e) frames level
  | emptyList {frame frames level} (h : lexeme.token = .closing) :
      Move text lexeme (.awaiting .bracket) (frame :: frames) level
        (.holding (frame.close lexeme.stop)) frames (frame.level + 1)
  | opening {e frames level} (h : lexeme.token = .opening) :
      Move text lexeme (.holding e) frames level
        (.awaiting .bracket) ({ operator := e, arguments := [], level } :: frames) (level + 1)
  | comma {e frame frames level} (h : lexeme.token = .comma) :
      Move text lexeme (.holding e) (frame :: frames) level
        (.awaiting .comma) (frame.push e :: frames) (frame.level + 1)
  | closing {e frame frames level} (h : lexeme.token = .closing) :
      Move text lexeme (.holding e) (frame :: frames) level
        (.holding ((frame.push e).close lexeme.stop)) frames (frame.level + 1)

/-- Whether a token is out of place at a stage, so that the reader refuses it. -/
inductive Refused : Stage → List Frame → Token → Prop where
  | closing {opening frames} (h : opening = .bracket → frames = []) :
      Refused (.awaiting opening) frames .closing
  | opening {opening frames} : Refused (.awaiting opening) frames .opening
  | comma {opening frames} : Refused (.awaiting opening) frames .comma
  | unclosed {opening frames} : Refused (.awaiting opening) frames .unclosed
  | separator {expr frame frames token} (hopening : token ≠ .opening) (hcomma : token ≠ .comma)
      (hclosing : token ≠ .closing) : Refused (.holding expr) (frame :: frames) token

/-- What the reader may do at a token, whatever follows it. -/
inductive Met (text : List Char) (lexeme : Lexeme) : Stage → List Frame → Nat → Prop where
  | move {stage frames level stage' frames' level'}
      (h : Move text lexeme stage frames level stage' frames' level') :
      Met text lexeme stage frames level
  | long {opening frames level digits} (htoken : lexeme.token = .numeral digits)
      (hlong : maxDigits < digits.length) : Met text lexeme (.awaiting opening) frames level
  | refused {stage frames level} (h : Refused stage frames lexeme.token) :
      Met text lexeme stage frames level
  | done {expr level} (h : lexeme.token ≠ .opening) : Met text lexeme (.holding expr) [] level

section

variable {lexeme : Lexeme} {rest : List Lexeme} {stage stage' : Stage}
  {frames frames' : List Frame} {level level' : Nat} {opening : Opening}

/-- Where an expression is due, any token but a closing bracket is taken for an
    atom. -/
theorem read_awaiting (h : lexeme.token ≠ .closing) :
    read limit text (.awaiting opening) frames level (lexeme :: rest) =
      match atom text lexeme with
      | .error stop => .error stop
      | .ok e => read limit text (.holding e) frames level rest := by
  obtain ⟨token, start, stop⟩ := lexeme
  cases token with
  | closing => exact absurd rfl h
  | _ => rfl

/-- An opening bracket behind an expression opens an argument list, unless it nests too deep. -/
theorem read_of_opening {e : Expr} {start stop : Nat} :
    read limit text (.holding e) frames level ({ token := .opening, start, stop } :: rest) =
      if level < limit then
        read limit text (.awaiting .bracket) ({ operator := e, arguments := [], level } :: frames)
          (level + 1) rest
      else .error (.breakdown .tooDeep) := by
  cases frames <;> rfl

/-- A complete expression is what the end of the text leaves. -/
theorem read_finished (expr : Expr) :
    read limit text (.holding expr) [] level [] = .ok (expr, []) := rfl

/-- Reading goes on behind a token that the reader moves through, unless an argument
    list nests too deep. -/
theorem read_of_move
    (h : Move text lexeme stage frames level stage' frames' level')
    (hlevel : lexeme.token = .opening → level < limit) :
    read limit text stage frames level (lexeme :: rest) =
      read limit text stage' frames' level' rest := by
  obtain ⟨token, start, stop⟩ := lexeme
  cases h with
  | atom e hatom =>
      have hclosing : token ≠ .closing := by
        rintro rfl
        cases hatom
      rw [read_awaiting hclosing, hatom]
  | emptyList h =>
      cases h
      rfl
  | opening h =>
      cases h
      rw [read_of_opening, if_pos (hlevel rfl)]
  | comma h =>
      cases h
      rfl
  | closing h =>
      cases h
      rfl

theorem read_tooDeep
    (h : Move text lexeme stage frames level stage' frames' level')
    (hopening : lexeme.token = .opening) (hlevel : ¬level < limit) :
    read limit text stage frames level (lexeme :: rest) = .error (.breakdown .tooDeep) := by
  obtain ⟨token, start, stop⟩ := lexeme
  cases hopening
  cases h with
  | opening _ => rw [read_of_opening, if_neg hlevel]
  | atom expr hatom => cases hatom
  | emptyList h => cases h
  | comma h => cases h
  | closing h => cases h

/-- What the reader makes of a token that is out of place. -/
def refusal (text : List Char) (stage : Stage) (lexeme : Lexeme) : Mistake :=
  match stage, lexeme.token with
  | .holding _, _ => .missingSeparator
  | .awaiting .comma, .closing => .nothingAfterComma
  | .awaiting _, _ => .unexpected (lineFrom text lexeme.start)

theorem category_refusal (text : List Char) (stage : Stage) (lexeme : Lexeme) :
    (refusal text stage lexeme).category = .grammar := by
  unfold refusal
  split <;> rfl

theorem read_eq_refusal (h : Refused stage frames lexeme.token) :
    read limit text stage frames level (lexeme :: rest) =
      refuse (refusal text stage lexeme) lexeme.start (lexeme.start + 1) := by
  obtain ⟨token, start, stop⟩ := lexeme
  cases h with
  | @closing opening frames h =>
      cases opening with
      | start => rfl
      | comma => cases frames <;> rfl
      | bracket =>
          rw [h rfl]
          rfl
  | @opening opening => cases opening <;> rfl
  | @comma opening => cases opening <;> rfl
  | @unclosed opening => cases opening <;> rfl
  | separator hopening hcomma hclosing =>
      cases token with
      | opening => exact absurd rfl hopening
      | comma => exact absurd rfl hcomma
      | closing => exact absurd rfl hclosing
      | _ => rfl

/-- A token that is out of place is a mistake of grammar at the place of its first
    character. -/
theorem read_refused (text : List Char) (h : Refused stage frames lexeme.token) :
    ∃ cause : Mistake, cause.category = .grammar ∧ ∀ limit rest,
      read limit text stage frames level (lexeme :: rest) =
        refuse cause lexeme.start (lexeme.start + 1) :=
  ⟨refusal text stage lexeme, category_refusal text stage lexeme, fun _ _ => read_eq_refusal h⟩

theorem met (text : List Char) (lexeme : Lexeme) (stage : Stage) (frames : List Frame)
    (level : Nat) : Met text lexeme stage frames level := by
  obtain ⟨token, start, stop⟩ := lexeme
  cases stage with
  | awaiting opening =>
      cases token with
      | text contents => exact .move (.atom _ rfl)
      | word name => exact .move (.atom _ rfl)
      | numeral digits =>
          by_cases hlong : maxDigits < digits.length
          · exact .long rfl hlong
          · exact .move (.atom _ (if_neg hlong))
      | closing =>
          by_cases h : opening = .bracket → frames = []
          · exact .refused (.closing h)
          · obtain ⟨rfl, hframes⟩ := Classical.not_imp.1 h
            obtain ⟨frame, frames, rfl⟩ := List.exists_cons_of_ne_nil hframes
            exact .move (.emptyList rfl)
      | opening => exact .refused .opening
      | comma => exact .refused .comma
      | unclosed => exact .refused .unclosed
  | holding expr =>
      cases frames with
      | nil =>
          by_cases hopening : token = .opening
          · exact .move (.opening hopening)
          · exact .done hopening
      | cons frame frames =>
          cases token with
          | opening => exact .move (.opening rfl)
          | comma => exact .move (.comma rfl)
          | closing => exact .move (.closing rfl)
          | _ => exact .refused (.separator nofun nofun nofun)

theorem read_long {digits : List Char} (htoken : lexeme.token = .numeral digits)
    (hlong : maxDigits < digits.length) :
    read limit text (.awaiting opening) frames level (lexeme :: rest) =
      .error (.breakdown (.longNumeral digits.length)) := by
  rw [read_awaiting (by simp [htoken])]
  simp only [atom, htoken, if_pos hlong]

theorem read_done {expr : Expr} (h : lexeme.token ≠ .opening) :
    read limit text (.holding expr) [] level (lexeme :: rest) = .ok (expr, lexeme :: rest) := by
  obtain ⟨token, start, stop⟩ := lexeme
  cases token with
  | opening => exact absurd rfl h
  | _ => rfl

/-- A reader that succeeds moves through the next token, or it holds a complete
    expression that the token cannot extend. -/
theorem read_cons_ok {result : Expr × List Lexeme}
    (h : read limit text stage frames level (lexeme :: rest) = .ok result) :
    (∃ stage' frames' level', Move text lexeme stage frames level stage' frames' level' ∧
      read limit text stage' frames' level' rest = .ok result) ∨
    ∃ e, stage = .holding e ∧ frames = [] ∧ lexeme.token ≠ .opening ∧
      result = (e, lexeme :: rest) := by
  cases met text lexeme stage frames level with
  | move hmove =>
      have hlevel : lexeme.token = .opening → level < limit := by
        intro hopening
        by_contra hlevel
        rw [read_tooDeep hmove hopening hlevel] at h
        cases h
      rw [read_of_move hmove hlevel] at h
      exact .inl ⟨_, _, _, hmove, h⟩
  | long htoken hlong =>
      rw [read_long htoken hlong] at h
      cases h
  | refused hrefused =>
      obtain ⟨cause, -, hread⟩ := read_refused text hrefused
      rw [hread] at h
      cases h
  | @done expr _ hopening =>
      rw [read_done hopening] at h
      exact .inr ⟨expr, rfl, rfl, hopening, (Except.ok.inj h).symm⟩

end

theorem read_atom {a : Atom} {opening : Opening} {frames : List Frame} {level place : Nat}
    {rest : List Lexeme} (h : a.Proper) :
    read limit text (.awaiting opening) frames level
        ({ token := a.token, start := place, stop := place + a.chars.length } :: rest) =
      read limit text (.holding (a.expr place)) frames level rest := by
  cases a with
  | text contents => rfl
  | number digits =>
      have hshort : ¬maxDigits < digits.length := Nat.not_lt.2 h.2
      rw [read_awaiting (by simp [Atom.token])]
      simp only [Atom.token, Reader.atom, Atom.expr, if_neg hshort, Atom.decimal_eq]
  | word name => rfl

/-- What comes of reading something that is nested so deep, from a level on. -/
def within {α : Type} (limit level depth : Nat) (result : Except Stop α) : Except Stop α :=
  if depth ≤ limit - level then result else .error (.breakdown .tooDeep)

section

variable {α : Type} {level depth : Nat} {result : Except Stop α}

theorem within_zero : within limit level 0 result = result := by
  rw [within, if_pos (Nat.zero_le _)]

theorem within_within {depth' : Nat} :
    within limit level depth (within limit level depth' result) =
      within limit level (max depth depth') result := by
  by_cases hdepth : depth ≤ limit - level
  · rw [within, if_pos hdepth, within, within]
    simp only [Nat.max_le, hdepth, true_and]
  · rw [within, if_neg hdepth, within, if_neg fun h => hdepth (Nat.max_le.1 h).1]

/-- An argument list opens a level. -/
theorem within_opening :
    within limit level 1 (within limit (level + 1) depth result) =
      within limit level (depth + 1) result := by
  by_cases hlevel : level < limit
  · have hiff : depth ≤ limit - (level + 1) ↔ depth + 1 ≤ limit - level := by omega
    rw [within, if_pos (by omega), within, within]
    simp only [hiff]
  · rw [within, if_neg (by omega), within, if_neg (by omega)]

end

theorem read_opening {e : Expr} {frames : List Frame} {level start stop : Nat}
    {rest : List Lexeme} :
    read limit text (.holding e) frames level ({ token := .opening, start, stop } :: rest) =
      within limit level 1 (read limit text (.awaiting .bracket)
        ({ operator := e, arguments := [], level } :: frames) (level + 1) rest) := by
  have hiff : level < limit ↔ 1 ≤ limit - level := by omega
  rw [read_of_opening]
  simp only [within, hiff]

theorem read_comma {e : Expr} {frame : Frame} {frames : List Frame} {level start stop : Nat}
    {rest : List Lexeme} :
    read limit text (.holding e) (frame :: frames) level
        ({ token := .comma, start, stop } :: rest) =
      read limit text (.awaiting .comma) (frame.push e :: frames) (frame.level + 1) rest := rfl

theorem read_closing {e : Expr} {frame : Frame} {frames : List Frame} {level start stop : Nat}
    {rest : List Lexeme} :
    read limit text (.holding e) (frame :: frames) level
        ({ token := .closing, start, stop } :: rest) =
      read limit text (.holding ((frame.push e).close stop)) frames (frame.level + 1) rest := rfl

theorem read_emptyList {frame : Frame} {frames : List Frame} {level start stop : Nat}
    {rest : List Lexeme} :
    read limit text (.awaiting .bracket) (frame :: frames) level
        ({ token := .closing, start, stop } :: rest) =
      read limit text (.holding (frame.close stop)) frames (frame.level + 1) rest := rfl

/-! ### Reading a derivation

An argument list opens a level that the lists behind it in its chain do not close.  So
reading breaks down exactly at a limit that the depth of a derivation exceeds. -/

mutual

theorem read_calls (cs : Calls) {e : Expr} {frames : List Frame} {level place : Nat}
    {x : List Char} (hcs : cs.Proper) :
    read limit text (.holding e) frames level (lexemesFrom place (cs.chars ++ x)) =
      within limit level cs.depth
        (read limit text (.holding (cs.applied place e)) frames (level + cs.count)
          (lexemesFrom (place + cs.chars.length) x)) := by
  cases cs with
  | none => exact within_zero.symm
  | call gap operands more =>
      rw [Calls.chars, List.append_assoc, lexemesFrom_gap place hcs.1, List.cons_append,
        lexemesFrom_mark .opening _ _ rfl, read_opening,
        List.append_assoc, List.cons_append, read_operands operands hcs.2.1,
        read_calls more hcs.2.2, within_within, within_opening, Calls.applied, Calls.count]
      have hplace : place + gap.chars.length + 1 + operands.chars.length + 1 + more.chars.length =
          place + (gap.chars ++ '(' :: (operands.chars ++ ')' :: more.chars)).length := by
        simp only [List.length_append, List.length_cons]
        omega
      rw [hplace, Nat.add_right_comm level 1, Nat.add_assoc level]
      rfl

theorem read_operands (o : Operands) {e : Expr} {frames : List Frame} {level place : Nat}
    {x : List Char} (ho : o.Proper) :
    read limit text (.awaiting .bracket) ({ operator := e, arguments := [], level } :: frames)
        (level + 1) (lexemesFrom place (o.chars ++ ')' :: x)) =
      within limit (level + 1) o.depth
        (read limit text
          (.holding (.call e (o.exprs place) ⟨e.span.start, place + o.chars.length + 1⟩)) frames
          (level + 1) (lexemesFrom (place + o.chars.length + 1) x)) := by
  cases o with
  | none gap =>
      rw [Operands.chars, lexemesFrom_gap place (show gap.Before (')' :: x).head? from ho),
        lexemesFrom_mark .closing _ _ rfl, read_emptyList, Operands.depth, within_zero]
      rfl
  | some slots =>
      rw [Operands.chars, read_slots slots ho]
      rfl

theorem read_slots (ss : Slots) {opening : Opening} {frame : Frame} {frames : List Frame}
    {place : Nat} {x : List Char} (hss : ss.Proper) :
    read limit text (.awaiting opening) (frame :: frames) (frame.level + 1)
        (lexemesFrom place (ss.chars ++ ')' :: x)) =
      within limit (frame.level + 1) ss.depth
        (read limit text
          (.holding (.call frame.operator (frame.arguments.reverse ++ ss.exprs place)
            ⟨frame.operator.span.start, place + ss.chars.length + 1⟩)) frames
          (frame.level + 1) (lexemesFrom (place + ss.chars.length + 1) x)) := by
  cases ss with
  | last before phrase after =>
      have hword : EndsWord (after.chars ++ ')' :: x) :=
        Gap.endsWord hss.2.2 (endsPhrase_cons (.inl rfl)).endsWord
      have hplace : place + before.chars.length + phrase.chars.length + after.chars.length + 1 =
          place + (Slots.last before phrase after).chars.length + 1 := by
        simp only [Slots.chars, List.length_append]
        omega
      rw [← hplace]
      rw [Slots.chars, List.append_assoc, List.append_assoc,
        lexemesFrom_gap place (by rw [Phrase.head?_append hss.2.1]; exact hss.1),
        read_phrase phrase hss.2.1 hword, lexemesFrom_gap _ hss.2.2,
        lexemesFrom_mark .closing _ _ rfl, read_closing]
      simp [Frame.push, Frame.close, Slots.exprs, Slots.depth]
  | more before phrase after rest =>
      have hword : EndsWord (after.chars ++ ',' :: (rest.chars ++ ')' :: x)) :=
        Gap.endsWord hss.2.2.1 (endsPhrase_cons (.inr rfl)).endsWord
      have hplace : place + before.chars.length + phrase.chars.length + after.chars.length + 1 +
          rest.chars.length + 1 = place + (Slots.more before phrase after rest).chars.length + 1 := by
        simp only [Slots.chars, List.length_append, List.length_cons]
        omega
      rw [← hplace]
      have hpush : ∀ e, frame.level = (frame.push e).level := fun _ => rfl
      rw [Slots.chars, List.append_assoc, List.append_assoc, List.append_assoc, List.cons_append,
        lexemesFrom_gap place (by rw [Phrase.head?_append hss.2.1]; exact hss.1),
        read_phrase phrase hss.2.1 hword, lexemesFrom_gap _ hss.2.2.1,
        lexemesFrom_mark .comma _ _ rfl, read_comma, hpush, read_slots rest hss.2.2.2, ← hpush,
        within_within]
      simp [Frame.push, Slots.exprs, Slots.depth]

theorem read_phrase (p : Phrase) {opening : Opening} {frames : List Frame} {level place : Nat}
    {x : List Char} (hp : p.Proper) (hx : EndsWord x) :
    read limit text (.awaiting opening) frames level (lexemesFrom place (p.chars ++ x)) =
      within limit level p.depth
        (read limit text (.holding (p.expr place)) frames (level + p.count)
          (lexemesFrom (place + p.chars.length) x)) := by
  cases p with
  | mk atom calls =>
      rw [Phrase.chars, List.append_assoc,
        lexemesFrom_atom place hp.1.1 (Calls.endsWord hp.2 hx), read_atom hp.1,
        read_calls calls hp.2, Phrase.expr, List.length_append, Nat.add_assoc place,
        Phrase.count, Phrase.depth]

end

/-- The reader yields the tree of a derivation, unless it is nested deeper than the limit. -/
theorem parse_eq_of_derives {d : Derivation} {source : String} (h : d.Derives source)
    (limit : Nat) : Expr.parse limit source = within limit 0 d.phrase.depth (.ok d.expr) := by
  obtain ⟨⟨hbefore, hphrase, hafter⟩, hchars⟩ := h
  have hword : EndsWord (d.after.chars ++ []) :=
    Gap.endsWord hafter endsPhrase_nil.endsWord
  have hlexemes : lexemesAt source 0 =
      lexemesFrom 0 (d.before.chars ++ (d.phrase.chars ++ (d.after.chars ++ []))) := by
    rw [List.append_nil]
    simp [lexemesAt, ← hchars, Derivation.chars]
  have hread : read limit source.toList (.awaiting .start) [] 0 (lexemesAt source 0) =
      within limit 0 d.phrase.depth (.ok (d.expr, [])) := by
    rw [hlexemes, lexemesFrom_gap 0 (by rw [Phrase.head?_append hphrase]; exact hbefore),
      read_phrase d.phrase hphrase hword, lexemesFrom_gap _ hafter, Derivation.expr]
    simp [lexemesFrom, read_finished]
  by_cases hdepth : d.phrase.depth ≤ limit - 0
  · simp only [Expr.parse, Expr.readAt, readFrom, hread, within, if_pos hdepth, if_pos]
  · simp only [Expr.parse, Expr.readAt, readFrom, hread, within, if_neg hdepth]

/-- The reader yields the tree of a derivation, within any limit that the text is not
    longer than. -/
theorem parse_of_derives {d : Derivation} {source : String} (h : d.Derives source)
    (hlimit : source.length ≤ limit) : Expr.parse limit source = .ok d.expr := by
  have hlength : d.phrase.chars.length ≤ source.length := by
    have hchars := congrArg List.length h.2
    rw [Derivation.chars, List.length_append, List.length_append, String.length_toList] at hchars
    omega
  rw [parse_eq_of_derives h, within, if_pos]
  exact Nat.le_trans d.phrase.depth_le (Nat.le_trans hlength hlimit)

/-! ### Finding a derivation

A run of the reader is followed backwards, from its end to its beginning.  What
remains to be read at some moment closes all calls that are open then, and the
token before it is put in front of the pieces that are already found. -/

/-- What stands between an argument and the closing bracket, with the bracket: more
    arguments behind a comma, or nothing. -/
def tailChars : Option Slots → List Char
  | none => [')']
  | some slots => ',' :: (slots.chars ++ [')'])

def TailProper : Option Slots → Prop
  | none => True
  | some slots => slots.Proper

def tailExprs (place : Nat) : Option Slots → List Expr
  | none => []
  | some slots => slots.exprs (place + 1)

def slotsOf (before : Gap) (phrase : Phrase) (after : Gap) : Option Slots → Slots
  | none => .last before phrase after
  | some slots => .more before phrase after slots

theorem slotsOf_proper {before after : Gap} {phrase : Phrase} {tail : Option Slots}
    (hbefore : before.Before phrase.chars.head?) (hphrase : phrase.Proper)
    (hafter : after.Before (tailChars tail).head?) (htail : TailProper tail) :
    (slotsOf before phrase after tail).Proper := by
  cases tail with
  | none => exact ⟨hbefore, hphrase, hafter⟩
  | some slots => exact ⟨hbefore, hphrase, hafter, htail⟩

theorem slotsOf_chars (before after : Gap) (phrase : Phrase) (tail : Option Slots)
    (x : List Char) :
    (slotsOf before phrase after tail).chars ++ ')' :: x =
      before.chars ++ (phrase.chars ++ (after.chars ++ (tailChars tail ++ x))) := by
  cases tail <;> simp [slotsOf, Slots.chars, tailChars]

theorem slotsOf_exprs (place : Nat) (before after : Gap) (phrase : Phrase)
    (tail : Option Slots) :
    (slotsOf before phrase after tail).exprs place =
      phrase.expr (place + before.chars.length) ::
        tailExprs (place + before.chars.length + phrase.chars.length + after.chars.length)
          tail := by
  cases tail <;> rfl

/-- With an expression in hand, a text closes the open calls and goes on to a rest
    where the outermost expression is complete. -/
def Closes : List Frame → Expr → Nat → List Char → Expr → List Char → Prop
  | [], e, place, chars, result, rest =>
    ∃ (cs : Calls) (gap : Gap), cs.Proper ∧ gap.Before rest.head? ∧
      chars = cs.chars ++ (gap.chars ++ rest) ∧ result = cs.applied place e
  | frame :: frames, e, place, chars, result, rest =>
    ∃ (cs : Calls) (gap : Gap) (tail : Option Slots) (more : List Char),
      cs.Proper ∧ gap.Before (tailChars tail).head? ∧ TailProper tail ∧
      chars = cs.chars ++ (gap.chars ++ (tailChars tail ++ more)) ∧
      let behind := place + cs.chars.length + gap.chars.length
      let stop := behind + (tailChars tail).length
      Closes frames
        (.call frame.operator
          (frame.arguments.reverse ++ cs.applied place e :: tailExprs behind tail)
          ⟨frame.operator.span.start, stop⟩)
        stop more result rest

/-- Where an expression is due, a text has one and closes the open calls behind
    it. -/
def Supplies (frames : List Frame) (place : Nat) (chars : List Char) (result : Expr)
    (rest : List Char) : Prop :=
  ∃ (gap : Gap) (a : Atom) (more : List Char), a.Proper ∧ gap.Before a.chars.head? ∧
    chars = gap.chars ++ (a.chars ++ more) ∧
    Closes frames (a.expr (place + gap.chars.length))
      (place + gap.chars.length + a.chars.length) more result rest

theorem Closes.call {frames : List Frame} {e result : Expr} {place : Nat}
    {more rest : List Char} {gap : Gap} (operands : Operands) (hgap : gap.Before (some '('))
    (hoperands : operands.Proper)
    (h : Closes frames
      (.call e (operands.exprs (place + gap.chars.length + 1))
        ⟨e.span.start, place + gap.chars.length + 1 + operands.chars.length + 1⟩)
      (place + gap.chars.length + 1 + operands.chars.length + 1) more result rest) :
    Closes frames e place (gap.chars ++ '(' :: (operands.chars ++ ')' :: more)) result rest := by
  have hlength : ∀ cs : Calls, place + (Calls.call gap operands cs).chars.length =
      place + gap.chars.length + 1 + operands.chars.length + 1 + cs.chars.length := by
    intro cs
    simp only [Calls.chars, List.length_append, List.length_cons]
    omega
  cases frames with
  | nil =>
      obtain ⟨cs, after, hcs, hafter, rfl, rfl⟩ := h
      refine ⟨.call gap operands cs, after, ⟨hgap, hoperands, hcs⟩, hafter, ?_, rfl⟩
      simp [Calls.chars]
  | cons frame frames =>
      obtain ⟨cs, after, tail, more, hcs, hafter, htail, rfl, hcloses⟩ := h
      refine ⟨.call gap operands cs, after, tail, more, ⟨hgap, hoperands, hcs⟩, hafter, htail,
        ?_, ?_⟩
      · simp [Calls.chars]
      · rw [hlength]
        exact hcloses

/-- What is supplied inside brackets are the arguments up to the closing one. -/
theorem Supplies.slots {frame : Frame} {frames : List Frame} {place : Nat} {chars rest : List Char}
    {result : Expr} (h : Supplies (frame :: frames) place chars result rest) :
    ∃ (slots : Slots) (more : List Char), slots.Proper ∧ chars = slots.chars ++ ')' :: more ∧
      Closes frames
        (.call frame.operator (frame.arguments.reverse ++ slots.exprs place)
          ⟨frame.operator.span.start, place + slots.chars.length + 1⟩)
        (place + slots.chars.length + 1) more result rest := by
  obtain ⟨before, a, -, ha, hbefore, rfl, cs, after, tail, more, hcs, hafter, htail, rfl,
    hcloses⟩ := h
  have hslots : (slotsOf before (.mk a cs) after tail).Proper := by
    obtain ⟨c, chars, hcons, -⟩ := Atom.chars_eq_cons ha.1
    exact slotsOf_proper (by simpa [Phrase.chars, hcons] using hbefore) ⟨ha, hcs⟩ hafter htail
  have hchars := slotsOf_chars before after (.mk a cs) tail more
  rw [Phrase.chars, List.append_assoc] at hchars
  refine ⟨slotsOf before (.mk a cs) after tail, more, hslots, hchars.symm, ?_⟩
  have hbehind : place + before.chars.length + (Phrase.mk a cs).chars.length +
      after.chars.length =
      place + before.chars.length + a.chars.length + cs.chars.length + after.chars.length := by
    rw [Phrase.chars, List.length_append, Nat.add_assoc _ a.chars.length]
  have hstop : place + (slotsOf before (.mk a cs) after tail).chars.length + 1 =
      place + before.chars.length + a.chars.length + cs.chars.length + after.chars.length +
        (tailChars tail).length := by
    have hlength := congrArg List.length hchars
    simp only [List.length_append, List.length_cons] at hlength
    omega
  rw [hstop, slotsOf_exprs, hbehind]
  exact hcloses

theorem Supplies.next {frame : Frame} {frames : List Frame} {e result : Expr} {place : Nat}
    {chars rest : List Char} {gap : Gap} (hgap : gap.Before (some ','))
    (h : Supplies (frame.push e :: frames) (place + gap.chars.length + 1) chars result rest) :
    Closes (frame :: frames) e place (gap.chars ++ ',' :: chars) result rest := by
  obtain ⟨slots, more, hslots, rfl, hcloses⟩ := h.slots
  refine ⟨.none, gap, some slots, more, trivial, hgap, hslots,
    by simp [Calls.chars, tailChars], ?_⟩
  have hstop : place + gap.chars.length + 1 + slots.chars.length + 1 =
      place + gap.chars.length + (tailChars (some slots)).length := by
    simp only [tailChars, List.length_cons, List.length_append, List.length_nil]
    omega
  rw [hstop] at hcloses
  simpa [Frame.push, Calls.chars, Calls.applied, tailExprs] using hcloses

/-- What is read behind an opening bracket: arguments, or the closing bracket. -/
def Fills (frame : Frame) (frames : List Frame) (place : Nat) (chars : List Char) (result : Expr)
    (rest : List Char) : Prop :=
  Supplies (frame :: frames) place chars result rest ∨
    ∃ (gap : Gap) (more : List Char), gap.Before (some ')') ∧ chars = gap.chars ++ ')' :: more ∧
      Closes frames (frame.close (place + gap.chars.length + 1)) (place + gap.chars.length + 1)
        more result rest

theorem Fills.call {frames : List Frame} {e result : Expr} {level place : Nat}
    {chars rest : List Char} {gap : Gap} (hgap : gap.Before (some '('))
    (h : Fills { operator := e, arguments := [], level } frames (place + gap.chars.length + 1)
      chars result rest) :
    Closes frames e place (gap.chars ++ '(' :: chars) result rest := by
  rcases h with h | ⟨inside, more, hinside, rfl, hcloses⟩
  · obtain ⟨slots, more, hslots, rfl, hcloses⟩ := h.slots
    exact Closes.call (.some slots) hgap hslots hcloses
  · exact Closes.call (.none inside) hgap hinside hcloses

theorem Closes.last {frame : Frame} {frames : List Frame} {e result : Expr} {place : Nat}
    {more rest : List Char} {gap : Gap} (hgap : gap.Before (some ')'))
    (h : Closes frames ((frame.push e).close (place + gap.chars.length + 1))
      (place + gap.chars.length + 1) more result rest) :
    Closes (frame :: frames) e place (gap.chars ++ ')' :: more) result rest := by
  refine ⟨.none, gap, none, more, trivial, hgap, trivial, rfl, ?_⟩
  simpa [Frame.push, Frame.close, Calls.chars, Calls.applied, tailChars, tailExprs] using h

/-- What remains to be read at a stage of the reader. -/
def Finishes : Stage → List Frame → Nat → List Char → Expr → List Char → Prop
  | .awaiting .bracket, frame :: frames => Fills frame frames
  | .awaiting _, frames => Supplies frames
  | .holding e, frames => fun place chars => Closes frames e place chars

theorem Supplies.finishes {opening : Opening} {frames : List Frame} {place : Nat}
    {chars rest : List Char} {result : Expr} (h : Supplies frames place chars result rest) :
    Finishes (.awaiting opening) frames place chars result rest := by
  cases opening with
  | start => exact h
  | comma => exact h
  | bracket =>
      cases frames with
      | nil => exact h
      | cons frame frames => exact .inl h

/-- Where the reader takes a token for an atom, the text has this atom behind a
    gap. -/
theorem eq_atom_of_lexemes {place : Nat} {chars : List Char} {lexeme : Lexeme}
    {after : List Lexeme} {e : Expr} (h : lexemesFrom place chars = lexeme :: after)
    (hatom : atom text lexeme = .ok e) :
    ∃ (gap : Gap) (a : Atom) (rest : List Char), a.Proper ∧ gap.Before a.chars.head? ∧
      chars = gap.chars ++ (a.chars ++ rest) ∧ e = a.expr (place + gap.chars.length) ∧
      after = lexemesFrom (place + gap.chars.length + a.chars.length) rest := by
  have hlexed := lexed place chars
  rw [h] at hlexed
  cases hlexed with
  | mark gap c token rest hmark hgap =>
      rcases mark_cases hmark with ⟨-, rfl⟩ | ⟨-, rfl⟩ | ⟨-, rfl⟩ <;>
        simp [Reader.atom, refuse] at hatom
  | atom gap a rest ha hgap =>
      cases a with
      | text contents =>
          simp only [Reader.atom, Atom.token, Except.ok.injEq] at hatom
          exact ⟨gap, .text contents, rest, ⟨ha, trivial⟩, hgap, rfl, hatom.symm, rfl⟩
      | number digits =>
          simp only [Reader.atom, Atom.token] at hatom
          split_ifs at hatom with hlong
          rw [Except.ok.injEq, Atom.decimal_eq] at hatom
          exact ⟨gap, .number digits, rest, ⟨ha, Nat.le_of_not_lt hlong⟩, hgap, rfl,
            hatom.symm, rfl⟩
      | word name =>
          simp only [Reader.atom, Atom.token, Except.ok.injEq] at hatom
          exact ⟨gap, .word name, rest, ⟨ha, trivial⟩, hgap, rfl, hatom.symm, rfl⟩
  | unclosed gap body hbody hgap => simp [Reader.atom, refuse] at hatom

/-- Whatever the reader succeeds with is what the grammar describes. -/
theorem finishes_of_read {stage : Stage} {frames : List Frame} {level place : Nat}
    {chars : List Char} {result : Expr} {lexemes : List Lexeme}
    (h : read limit text stage frames level (lexemesFrom place chars) = .ok (result, lexemes)) :
    ∃ place' rest, lexemes = lexemesFrom place' rest ∧
      place' + rest.length = place + chars.length ∧ EndsGap rest ∧
      Finishes stage frames place chars result rest := by
  generalize hall : lexemesFrom place chars = all at h
  induction all generalizing stage frames level place chars with
  | nil =>
      have hlexed := lexed place chars
      rw [hall] at hlexed
      cases hlexed with
      | silent gap hgap =>
          cases stage with
          | awaiting opening => cases h
          | holding e =>
              cases frames with
              | nil =>
                  obtain ⟨rfl, rfl⟩ := Prod.mk.inj (Except.ok.inj h)
                  refine ⟨place + gap.chars.length, [], by simp [lexemesFrom], rfl,
                    endsPhrase_nil.endsGap, ?_⟩
                  exact ⟨.none, gap, trivial, hgap, by simp [Calls.chars], rfl⟩
              | cons frame frames => cases h
  | cons lexeme after ih =>
      rcases read_cons_ok h with ⟨stage', frames', level', hmove, hread⟩ |
        ⟨e, rfl, rfl, -, hresult⟩
      · cases hmove with
        | atom e hatom =>
            obtain ⟨gap, a, rest, ha, hgap, rfl, rfl, rfl⟩ := eq_atom_of_lexemes hall hatom
            obtain ⟨place', last, hlexemes, hplace, hlast, hfinishes⟩ := ih rfl hread
            refine ⟨place', last, hlexemes, ?_, hlast,
              Supplies.finishes ⟨gap, a, rest, ha, hgap, rfl, hfinishes⟩⟩
            simp only [hplace, List.length_append]
            omega
        | emptyList hclosing =>
            obtain ⟨gap, rest, hgap, rfl, hstop, rfl⟩ :=
              eq_mark_of_lexemes (show Token.ofMark? ')' = _ from rfl) hall hclosing
            obtain ⟨place', last, hlexemes, hplace, hlast, hfinishes⟩ := ih rfl hread
            rw [hstop] at hfinishes
            refine ⟨place', last, hlexemes, ?_, hlast, .inr ⟨gap, rest, hgap, rfl, hfinishes⟩⟩
            simp only [hplace, List.length_append, List.length_cons]
            omega
        | opening hopening =>
            obtain ⟨gap, rest, hgap, rfl, hstop, rfl⟩ :=
              eq_mark_of_lexemes (show Token.ofMark? '(' = _ from rfl) hall hopening
            obtain ⟨place', last, hlexemes, hplace, hlast, hfinishes⟩ := ih rfl hread
            refine ⟨place', last, hlexemes, ?_, hlast, Fills.call hgap hfinishes⟩
            simp only [hplace, List.length_append, List.length_cons]
            omega
        | comma hcomma =>
            obtain ⟨gap, rest, hgap, rfl, hstop, rfl⟩ :=
              eq_mark_of_lexemes (show Token.ofMark? ',' = _ from rfl) hall hcomma
            obtain ⟨place', last, hlexemes, hplace, hlast, hfinishes⟩ := ih rfl hread
            refine ⟨place', last, hlexemes, ?_, hlast, Supplies.next hgap hfinishes⟩
            simp only [hplace, List.length_append, List.length_cons]
            omega
        | closing hclosing =>
            obtain ⟨gap, rest, hgap, rfl, hstop, rfl⟩ :=
              eq_mark_of_lexemes (show Token.ofMark? ')' = _ from rfl) hall hclosing
            obtain ⟨place', last, hlexemes, hplace, hlast, hfinishes⟩ := ih rfl hread
            rw [hstop] at hfinishes
            refine ⟨place', last, hlexemes, ?_, hlast, Closes.last hgap hfinishes⟩
            simp only [hplace, List.length_append, List.length_cons]
            omega
      · -- the expression is complete, and the token stays unread
        rw [Prod.mk.injEq] at hresult
        obtain ⟨rfl, rfl⟩ := hresult
        obtain ⟨gap, rest, hgap, hrest, rfl, -⟩ := exists_gap_of_lexemes hall
        refine ⟨place + gap.chars.length, rest, ?_, ?_, hrest, .none, gap, trivial, hgap, rfl, rfl⟩
        · rw [← hall, lexemesFrom_gap place hgap]
        · rw [List.length_append, Nat.add_assoc]

/-- Every tree that parsing yields, within whatever limit, has a derivation. -/
theorem derives_of_parse {source : String} {e : Expr} (h : Expr.parse limit source = .ok e) :
    ∃ d : Derivation, d.Derives source ∧ d.expr = e := by
  have hlexemes : lexemesAt source 0 = lexemesFrom 0 source.toList := by simp [lexemesAt]
  simp only [Expr.parse, Expr.readAt, readFrom, hlexemes] at h
  cases hread : read limit source.toList (.awaiting .start) [] 0
      (lexemesFrom 0 source.toList) with
  | error stop => simp [hread] at h
  | ok result =>
      obtain ⟨e', lexemes⟩ := result
      obtain ⟨place, rest, rfl, hplace, hrest, gap, a, more, ha, hgap, hchars, cs, after, hcs,
        hafter, rfl, rfl⟩ := finishes_of_read hread
      rw [String.length_toList, Nat.zero_add] at hplace
      -- nothing is left behind the expression
      have hend : rest = [] ∧ cs.applied (0 + gap.chars.length + a.chars.length)
          (a.expr (0 + gap.chars.length)) = e := by
        cases htokens : lexemesFrom place rest with
        | nil =>
            simp only [hread, htokens, if_true, Except.ok.injEq] at h
            exact ⟨eq_nil_of_endsGap hrest htokens, h⟩
        | cons lexeme tokens =>
            simp only [hread, htokens, start_of_endsGap hrest htokens] at h
            by_cases hstop : place = source.length
            · rw [if_pos hstop] at h
              exact ⟨List.eq_nil_of_length_eq_zero (by omega), Except.ok.inj h⟩
            · simp [if_neg hstop, refuse] at h
      obtain ⟨rfl, rfl⟩ := hend
      obtain ⟨c, chars, hcons, -⟩ := Atom.chars_eq_cons ha.1
      refine ⟨⟨gap, .mk a cs, after⟩, ⟨⟨?_, ⟨ha, hcs⟩, hafter⟩, ?_⟩, ?_⟩
      · simpa [Phrase.chars, hcons] using hgap
      · simp [Derivation.chars, Phrase.chars, hchars]
      · simp [Derivation.expr, Phrase.expr]

/-- Parsing accepts the texts of the grammar and no others, and it yields the tree of
    the one derivation that a text has.  The limit matters to no text that is not
    longer. -/
theorem parse_eq_ok_iff_derives {source : String} (hlimit : source.length ≤ limit) (e : Expr) :
    (Expr.parse limit source = .ok e ↔ ∃ d : Derivation, d.Derives source ∧ d.expr = e) ∧
      ∀ d d' : Derivation, d.Derives source → d'.Derives source → d = d' := by
  refine ⟨⟨derives_of_parse, ?_⟩, ?_⟩
  · rintro ⟨d, hd, rfl⟩
    exact parse_of_derives hd hlimit
  · intro d d' hd hd'
    exact Derivation.eq_of_chars_eq hd.1 hd'.1 (hd.2.trans hd'.2.symm)

theorem parse_eq_ok_iff_derives_call :
    "f(x, 12)".length ≤ 8 ∧
      Expr.parse 8 "f(x, 12)" = .ok (.call (.name "f" ⟨0, 1⟩)
        [.name "x" ⟨2, 3⟩, .literal (.int 12) ⟨5, 7⟩] ⟨0, 8⟩) := by
  have hlimit : "f(x, 12)".length ≤ 8 := by decide
  refine ⟨hlimit, (parse_eq_ok_iff_derives hlimit _).1.2 ?_⟩
  refine ⟨⟨[], .mk (.word ['f']) (.call [] (.some (.more [] (.mk (.word ['x']) .none) []
    (.last [.blank ' '] (.mk (.number ['1', '2']) .none) []))) .none), []⟩, ⟨?_, ?_⟩, rfl⟩
  · simp [Derivation.Proper, Phrase.Proper, Calls.Proper, Operands.Proper, Slots.Proper,
      Gap.Before, Filler.Before, Atom.Proper, Atom.Spelled, Atom.Short, isWordChar,
      Text.isBlank, Text.blankRanges, isPunctuation, maxDigits]
  · decide

end CallLang.Reader
