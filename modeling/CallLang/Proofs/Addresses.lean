/-
  CallLang/Proofs/Addresses.lean
  ==============================
  **Lines and columns.**

  An address tells the line that an offset is on and how far behind the start of this
  line it is.  So the offset is the column and the lengths of all lines before, the line
  feeds included: the address determines the offset, every place in a line is the address
  of one, and addresses are in the order of their offsets.

  A position that is behind the last character of a line and before its line feed is still
  on this line.  The position after the line feed is on the next one, which may be empty.
-/
import CallLang.Proofs.Lexing
import CallLang.Reporter
import Mathlib.Data.Prod.Lex

namespace CallLang

namespace Text

/-! ### Around an offset -/

/-- A text as the line that a position is on, with what stands before and behind this line. -/
structure OnLine (text : List Char) (place : Nat) (before line behind : List Char) : Prop where
  text_eq : text = before ++ (line ++ behind)
  whole : '\n' ∉ line
  begins : ∀ c, before.getLast? = some c → c = '\n'
  ends : ∀ c, behind.head? = some c → c = '\n'
  le_place : before.length ≤ place
  place_le : place ≤ before.length + line.length

theorem not_mem_takeWhile_line (text : List Char) : '\n' ∉ text.takeWhile (· ≠ '\n') := by
  intro hmem
  have hne := List.all_eq_true.1 List.all_takeWhile _ hmem
  exact of_decide_eq_true hne rfl

theorem eq_of_head?_dropWhile_line {text : List Char} :
    ∀ c, (text.dropWhile (· ≠ '\n')).head? = some c → c = '\n' :=
  fun c hc => by simpa using Grammar.head?_dropWhile_stop c hc

/-- The address of an offset gives the line that it is on. -/
theorem Address.exists_onLine (text : List Char) (offset : Int) :
    let address := Address.of text offset
    ∃ before behind, OnLine text (clamp text.length offset) before address.line.toList behind ∧
      address.number = before.count '\n' + 1 ∧
      before.length + address.column = clamp text.length offset := by
  let place := clamp text.length offset
  let front := text.take place
  let left := (front.reverse.takeWhile (· ≠ '\n')).reverse
  let before := (front.reverse.dropWhile (· ≠ '\n')).reverse
  let right := (text.drop place).takeWhile (· ≠ '\n')
  let behind := (text.drop place).dropWhile (· ≠ '\n')
  have hfront : before ++ left = front := by
    rw [← List.reverse_append, List.takeWhile_append_dropWhile, List.reverse_reverse]
  have hback : right ++ behind = text.drop place := List.takeWhile_append_dropWhile
  have hleft : '\n' ∉ left := mt List.mem_reverse.1 (not_mem_takeWhile_line _)
  have hright : '\n' ∉ right := not_mem_takeWhile_line _
  have hlength : before.length + left.length = place := by
    rw [← List.length_append, hfront, List.length_take]
    exact Nat.min_eq_left (Nat.min_le_right _ _)
  have hline : (Address.of text offset).line.toList = left ++ right := String.toList_ofList
  refine ⟨before, behind, ⟨?_, ?_, ?_, eq_of_head?_dropWhile_line, ?_, ?_⟩, ?_, hlength⟩
  · rw [hline, List.append_assoc, hback, ← List.append_assoc, hfront, List.take_append_drop]
  · rw [hline]
    exact fun hmem => (List.mem_append.1 hmem).elim hleft hright
  · intro c hc
    rw [List.getLast?_reverse] at hc
    exact eq_of_head?_dropWhile_line c hc
  · exact Nat.le.intro hlength
  · rw [hline, List.length_append, ← Nat.add_assoc, hlength]
    exact Nat.le_add_right _ _
  · change front.count '\n' + 1 = before.count '\n' + 1
    rw [← hfront, List.count_append, List.count_eq_zero.2 hleft, Nat.add_zero]

/-! ### Lines -/

/-- The number of characters before the line with an index, line feeds included. -/
def lineStart (lines : List (List Char)) (index : Nat) : Nat :=
  ((lines.take index).map fun line => line.length + 1).sum

theorem length_splitOn (text : List Char) :
    (text.splitOn '\n').length = text.count '\n' + 1 := by
  induction text with
  | nil => rfl
  | cons c rest ih =>
      rw [List.splitOn_cons_eq_if_modifyHead]
      by_cases hc : c = '\n' <;> simp [hc, ih]

/-- The lines of a text have one line feed less than there are lines. -/
theorem lineStart_splitOn (text : List Char) :
    lineStart (text.splitOn '\n') (text.splitOn '\n').length = text.length + 1 := by
  rw [lineStart, List.take_length]
  induction text with
  | nil => rfl
  | cons c rest ih =>
      rw [List.splitOn_cons_eq_if_modifyHead]
      obtain ⟨first, others, hlines⟩ := List.exists_cons_of_ne_nil (List.splitOn_ne_nil '\n' rest)
      rw [hlines] at ih ⊢
      by_cases hc : c = '\n'
      · simp [hc] at ih ⊢
        omega
      · simp [hc] at ih ⊢
        omega

theorem lineStart_succ {lines : List (List Char)} {index : Nat} {line : List Char}
    (h : lines[index]? = some line) :
    lineStart lines (index + 1) = lineStart lines index + (line.length + 1) := by
  simp [lineStart, List.take_add_one, h]

theorem lineStart_mono (lines : List (List Char)) {index index' : Nat} (h : index ≤ index') :
    lineStart lines index ≤ lineStart lines index' := by
  have hsplit := List.take_append_drop index (lines.take index')
  rw [List.take_take, Nat.min_eq_left h] at hsplit
  unfold lineStart
  rw [← hsplit, List.map_append, List.sum_append_nat]
  exact Nat.le_add_right _ _

/-- Whether a position is on the line with a number, counted from one, behind as many characters of
    this line as the column says. -/
inductive Stands (lines : List (List Char)) : Nat → Nat → Nat → Prop where
  | on {index column : Nat} {line : List Char} (hline : lines[index]? = some line)
      (hcolumn : column ≤ line.length) :
      Stands lines (index + 1) column (lineStart lines index + column)

section

variable {lines : List (List Char)} {number number' column column' place place' : Nat}

theorem Stands.exists_line (h : Stands lines number column place) :
    ∃ line, lines[number - 1]? = some line ∧ 1 ≤ number ∧ number ≤ lines.length ∧
      column ≤ line.length ∧ lineStart lines (number - 1) + column = place := by
  obtain @⟨index, column, line, hline, hcolumn⟩ := h
  have hindex := (List.getElem?_eq_some_iff.1 hline).1
  exact ⟨line, hline, Nat.le_add_left 1 index, hindex, hcolumn, rfl⟩

/-- What stands on an earlier line stands earlier. -/
theorem Stands.lt_of_number_lt (h : Stands lines number column place)
    (h' : Stands lines number' column' place') (hnumber : number < number') : place < place' := by
  obtain @⟨index, column, line, hline, hcolumn⟩ := h
  obtain @⟨index', column', -, -, -⟩ := h'
  calc lineStart lines index + column
    _ < lineStart lines index + (line.length + 1) :=
      Nat.add_lt_add_left (Nat.lt_succ_of_le hcolumn) _
    _ = lineStart lines (index + 1) := (lineStart_succ hline).symm
    _ ≤ lineStart lines index' := lineStart_mono lines (Nat.le_of_lt_succ hnumber)
    _ ≤ lineStart lines index' + column' := Nat.le_add_right _ _

/-- Positions are in the order of their lines and columns. -/
theorem Stands.lt_iff (h : Stands lines number column place)
    (h' : Stands lines number' column' place') :
    toLex (number, column) < toLex (number', column') ↔ place < place' := by
  rw [Prod.Lex.toLex_lt_toLex]
  rcases Nat.lt_trichotomy number number' with hnumber | rfl | hnumber
  · exact iff_of_true (.inl hnumber) (h.lt_of_number_lt h' hnumber)
  · cases h
    cases h'
    simp
  · have hlt := h'.lt_of_number_lt h hnumber
    refine iff_of_false ?_ (Nat.lt_asymm hlt)
    simp [Nat.lt_asymm hnumber, Nat.ne_of_gt hnumber]

theorem Stands.eq_iff (h : Stands lines number column place)
    (h' : Stands lines number' column' place') :
    toLex (number, column) = toLex (number', column') ↔ place = place' := by
  rw [eq_iff_le_not_lt, eq_iff_le_not_lt, ← not_lt, ← not_lt, h.lt_iff h', h'.lt_iff h]

end

/-- The lines before the one that a position is on are those of the text before it. -/
theorem OnLine.stands {text before line behind : List Char} {place column : Nat}
    (h : OnLine text place before line behind) (hcolumn : before.length + column = place) :
    (text.splitOn '\n')[before.count '\n']? = some line ∧
      Stands (text.splitOn '\n') (before.count '\n' + 1) column place := by
  obtain ⟨rfl, hwhole, hbegins, hends, hle, hge⟩ := h
  obtain ⟨others, hothers⟩ : ∃ others, (line ++ behind).splitOn '\n' = line :: others := by
    cases behind with
    | nil => exact ⟨[], by rw [List.append_nil, List.splitOn_eq_singleton hwhole]⟩
    | cons c rest =>
        obtain rfl := hends c rfl
        refine ⟨rest.splitOn '\n', ?_⟩
        rw [List.splitOn_append_cons_self, List.splitOn_eq_singleton hwhole, List.singleton_append]
  obtain ⟨front, hlength, hstart, hlines⟩ : ∃ front : List (List Char),
      front.length = before.count '\n' ∧ lineStart front front.length = before.length ∧
        (before ++ (line ++ behind)).splitOn '\n' = front ++ (line ++ behind).splitOn '\n' := by
    rcases List.eq_nil_or_concat before with rfl | ⟨rest, c, rfl⟩
    · exact ⟨[], rfl, rfl, rfl⟩
    · obtain rfl := hbegins c (by simp)
      refine ⟨rest.splitOn '\n', ?_, ?_, ?_⟩
      · simp [length_splitOn]
      · simp [lineStart_splitOn]
      · simp [List.splitOn_append_cons_self]
  rw [hlines, hothers, ← hlength]
  have hline : (front ++ line :: others)[front.length]? = some line := by simp
  have hplace : lineStart (front ++ line :: others) front.length + column = place := by
    rw [← hcolumn, ← hstart]
    simp [lineStart]
  refine ⟨hline, ?_⟩
  rw [← hplace]
  exact .on hline (by omega)

/-- The place that an offset has in its text, where its address says that it is. -/
theorem Address.stands (text : List Char) (offset : Int) :
    let address := Address.of text offset
    let lines := text.splitOn '\n'
    lines[address.number - 1]? = some address.line.toList ∧
      Stands lines address.number address.column (clamp text.length offset) := by
  obtain ⟨before, behind, honLine, hnumber, hcolumn⟩ := Address.exists_onLine text offset
  simp only [hnumber]
  exact honLine.stands hcolumn

/-- Every place in a line is a position of the text. -/
theorem exists_stands {text line : List Char} {index column : Nat}
    (hline : (text.splitOn '\n')[index]? = some line) (hcolumn : column ≤ line.length) :
    ∃ place ≤ text.length, Stands (text.splitOn '\n') (index + 1) column place := by
  refine ⟨_, ?_, .on hline hcolumn⟩
  have hindex : index < (text.splitOn '\n').length := (List.getElem?_eq_some_iff.1 hline).1
  have hle := lineStart_mono (text.splitOn '\n') (Nat.succ_le_of_lt hindex)
  rw [lineStart_splitOn, Nat.succ_eq_add_one, lineStart_succ hline] at hle
  omega

theorem clamp_eq (length : Nat) (offset : Int) :
    (clamp length offset : Int) = min (max offset 0) length := by
  unfold clamp
  omega

theorem clamp_of_mem {length : Nat} {offset : Int} (hlow : 0 ≤ offset) (hhigh : offset ≤ length) :
    (clamp length offset : Int) = offset := by
  rw [clamp_eq, max_eq_left hlow, min_eq_left hhigh]

end Text

/-! ### Located offsets -/

namespace Reporter

/-- Locating an offset is the inverse of counting the characters before a place in a line.  The
    line that is found is the one with the number, the offset, brought into the text, is the
    column and the lengths of the lines before with their line feeds, and every place in a line
    is found.  Lines and columns have the order of the offsets, so no two offsets within the text
    are found at the same place. -/
theorem locate_exact (reporter : Reporter) :
    let text := reporter.source.toList
    let lines := text.splitOn '\n'
    let address (offset : Int) := reporter.locate offset
    let key (offset : Int) := toLex ((address offset).number, (address offset).column)
    (∀ offset, 1 ≤ (address offset).number ∧ (address offset).number ≤ lines.length ∧
      lines[(address offset).number - 1]? = some (address offset).line.toList ∧
      (address offset).column ≤ (address offset).line.length ∧
      ((((lines.take ((address offset).number - 1)).map fun line => line.length + 1).sum +
        (address offset).column : Nat) : Int) = min (max offset 0) text.length) ∧
    (∀ offset offset' : Int, 0 ≤ offset → offset ≤ text.length → 0 ≤ offset' →
      offset' ≤ text.length → (key offset = key offset' ↔ offset = offset') ∧
        (key offset < key offset' ↔ offset < offset')) ∧
    ∀ index line column, lines[index]? = some line → column ≤ line.length →
      ∃ offset : Int, 0 ≤ offset ∧ offset ≤ text.length ∧
        key offset = toLex (index + 1, column) := by
  intro text lines address key
  have hstands : ∀ offset, lines[(address offset).number - 1]? = some (address offset).line.toList ∧
      Text.Stands lines (address offset).number (address offset).column
        (Text.clamp text.length offset) :=
    fun offset => Text.Address.stands text offset
  refine ⟨fun offset => ?_, fun offset offset' hlow hhigh hlow' hhigh' => ?_, ?_⟩
  · obtain ⟨hline, hplace⟩ := hstands offset
    obtain ⟨line, hline', hfirst, hlast, hcolumn, hsum⟩ := hplace.exists_line
    obtain rfl := Option.some.inj (hline.symm.trans hline')
    refine ⟨hfirst, hlast, hline, hcolumn, ?_⟩
    rw [← Text.clamp_eq, ← hsum, Text.lineStart]
  · have hplace := (hstands offset).2
    have hplace' := (hstands offset').2
    have heq := hplace.eq_iff hplace'
    have hlt := hplace.lt_iff hplace'
    rw [← Int.ofNat_inj, Text.clamp_of_mem hlow hhigh, Text.clamp_of_mem hlow' hhigh'] at heq
    rw [← Int.ofNat_lt, Text.clamp_of_mem hlow hhigh, Text.clamp_of_mem hlow' hhigh'] at hlt
    exact ⟨heq, hlt⟩
  · intro index line column hline hcolumn
    obtain ⟨place, hle, hplace⟩ := Text.exists_stands hline hcolumn
    have hplace' := (hstands place).2
    have hclamp : Text.clamp text.length place = place :=
      Int.ofNat_inj.1 (Text.clamp_of_mem (Int.natCast_nonneg place) (Int.ofNat_le.2 hle))
    rw [hclamp] at hplace'
    exact ⟨place, Int.natCast_nonneg place, Int.ofNat_le.2 hle, (hplace'.eq_iff hplace).2 rfl⟩

/-- Behind a line feed at the end of a text there is one more line, without any characters. -/
example :
    let reporter := (new false false).register "a" "x\n\ny\n"
    reporter.locate 1 = ⟨"x", 1, 1⟩ ∧ reporter.locate 2 = ⟨"", 2, 0⟩ ∧
      reporter.locate 5 = ⟨"", 4, 0⟩ ∧ reporter.locate 9 = reporter.locate 5 := by
  decide

end Reporter

end CallLang
