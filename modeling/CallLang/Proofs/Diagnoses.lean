/-
  CallLang/Proofs/Diagnoses.lean
  ==============================
  **The line of a fault.**

  The report of a fault shows the line on which the fault begins, as it stands in the text,
  and marks the fault below it.  The line is written in three pieces, of which the middle one
  is emphasised.  The pieces are cut by columns, but the fault is given by offsets, and it may
  be empty, or go on over the end of the line, or begin there: in each case the pieces are the
  whole line, and the middle one is the part of the text that is at fault and on this line.
-/
import CallLang.Proofs.Addresses
import CallLang.Proofs.Registrations

namespace CallLang

/-! ### Pieces of a line -/

namespace Text

section

variable (text : List Char) (start stop : Nat)

theorem position_natCast (length : Nat) : position length stop = min stop length := by
  rw [position, if_neg (Int.not_lt.2 (Int.natCast_nonneg stop)), Int.toNat_natCast]

theorem upTo_natCast : upTo text stop = text.take stop := by
  rw [upTo, position_natCast, ← List.take_eq_take_min]

theorem onFrom_natCast : onFrom text start = text.drop start := by
  rw [onFrom, position_natCast, ← List.drop_eq_drop_min]

theorem slice_natCast : slice text start stop = (text.take stop).drop start := by
  rw [slice, position_natCast, position_natCast, ← List.take_eq_take_min,
    List.drop_eq_drop_iff, List.length_take]
  omega

end

/-- A part of the text that begins and ends on a line is a part of this line. -/
theorem OnLine.take_drop {text before line behind : List Char} {start : Nat}
    (h : OnLine text start before line behind) {stop : Nat} (hlow : before.length ≤ stop)
    (hhigh : stop ≤ before.length + line.length) :
    (text.take stop).drop start =
      (line.take (stop - before.length)).drop (start - before.length) := by
  obtain ⟨column, rfl⟩ := Nat.exists_eq_add_of_le h.le_place
  obtain ⟨length, rfl⟩ := Nat.exists_eq_add_of_le hlow
  rw [h.text_eq, List.take_length_add_append, List.drop_length_add_append,
    Nat.add_sub_cancel_left, Nat.add_sub_cancel_left,
    List.take_append_of_le_length (Nat.add_le_add_iff_left.1 hhigh)]

/-- A line is what is before a column, behind another one, and between them. -/
theorem eq_pieces (line : List Char) (column width : Nat) :
    line = line.take column ++ (line.take (column + width)).drop column ++
      line.drop (column + width) := by
  have htake := List.take_append_drop column (line.take (column + width))
  rw [List.take_take, Nat.min_eq_left (Nat.le_add_right _ _)] at htake
  rw [htake, List.take_append_drop]

/-- What is at fault on the line where it begins, or the next character on it. -/
theorem OnLine.part_eq {text before line behind : List Char} {start column : Nat}
    (h : OnLine text start before line behind) (hcolumn : before.length + column = start)
    (stop : Nat) :
    (text.take (min (max stop (start + 1)) (before.length + line.length))).drop start =
      (line.take (column + max 1 (min (stop - start) (line.length - column)))).drop column := by
  have hle := h.place_le
  rw [h.take_drop (by omega) (Nat.min_le_right _ _), ← hcolumn, Nat.add_sub_cancel_left]
  congr 1
  rw [List.take_eq_take_iff]
  omega

end Text

/-! ### Without colour -/

@[simp] theorem Text.Style.paint_false (style : Text.Style) (text : String) :
    style.paint false text = text := rfl

@[simp] theorem Segment.render_false (segment : Segment) : segment.render false = segment.text := by
  cases segment <;> rfl

@[simp] theorem Message.render_false (message : Message) : message.render false = message.text := by
  rw [Message.render, Message.text, List.map_congr_left fun segment _ => segment.render_false]

namespace Reporter

/-! ### Diagnoses -/

variable {reporter : Reporter}

/-- What is shown of a line with a mark as wide as the fault, but within the line, and at least as
    wide as one character. -/
theorem diagnose_eq (reporter : Reporter) (style : Text.Style) (line : List Char)
    {column : Nat} (hcolumn : column ≤ line.length) (length : Nat) :
    let width := max 1 (min length (line.length - column))
    reporter.diagnose style (String.ofList line) column (column + length : Nat) =
      "  " ++ String.ofList (line.take column) ++
        style.paint reporter.color (String.ofList ((line.take (column + width)).drop column)) ++
        String.ofList (line.drop (column + width)) ++ "\n" ++
        "  " ++ String.ofList (List.replicate column ' ') ++
        style.paint reporter.color (String.ofList ('^' :: List.replicate (width - 1) '~')) := by
  intro width
  have hstop : min (max ((column + length : Nat) : Int) ((column : Int) + 1))
      (max (line.length : Int) ((column : Int) + 1)) = ((column + width : Nat) : Int) := by
    omega
  have hmark : ((((column + width : Nat) : Int) - (column : Int) - 1).toNat) = width - 1 := by
    omega
  simp only [diagnose, String.toList_ofList, hstop, hmark, Text.slice_natCast, Text.upTo_natCast,
    Text.onFrom_natCast, Int.toNat_natCast]

/-- The report of a complaint as a warning or as an error, with its style and its label. -/
inductive Reports (reporter : Reporter) (complaint : Complaint) :
    Text.Style → String → String → Prop where
  | warned : Reports reporter complaint .warning "warning" (reporter.warn complaint)
  | thrown :
      Reports reporter complaint .error complaint.category.label (reporter.throw complaint).text

/-- An offset within the current source is on the line that is located. -/
theorem exists_onLine {text : String} (hsource : reporter.source = text) {offset : Nat}
    (hle : offset ≤ text.length) :
    let address := reporter.locate offset
    ∃ before behind, Text.OnLine text.toList offset before address.line.toList behind ∧
      address.number = before.count '\n' + 1 ∧ before.length + address.column = offset := by
  have hclamp : Text.clamp text.toList.length offset = offset :=
    Int.ofNat_inj.1 (Text.clamp_of_mem (Int.natCast_nonneg offset) (Int.ofNat_le.2 hle))
  have honLine := Text.Address.exists_onLine text.toList (offset : Int)
  rw [hclamp] at honLine
  rw [locate, hsource]
  exact honLine

theorem Reports.eq_present {complaint : Complaint} {style : Text.Style} {label report : String}
    (h : reporter.Reports complaint style label report) :
    report = reporter.present style label complaint := by
  cases h with
  | warned => rfl
  | thrown => exact (reporter.throw_cases complaint).1

/-- A complaint that shows its line says so after its message. -/
theorem body_of_diagnosed {complaint : Complaint} {start stop : Int}
    (hstart : complaint.start = some start) (hstop : complaint.stop = some stop)
    (hinternal : complaint.internal = false) (hdiagnosed : complaint.diagnosed = true)
    (hblank : Text.isBlankText (reporter.locate start).line = false) (style : Text.Style)
    (label : String) :
    let address := reporter.locate start
    reporter.body style label complaint =
      style.paint reporter.color (label ++ ": ") ++ complaint.message.render reporter.color ++
        "\n" ++ (reporter.diagnose style address.line address.column
          (address.column + (stop - start)) ++ "\n") := by
  simp only [body, diagnosis, hstart, hstop, hinternal, hdiagnosed, hblank, Bool.false_eq_true,
    if_false, Bool.not_true, Bool.or_false, Option.getD_some, String.empty_append]

/-- A report shows the line on which the fault begins as it stands in the text, and marks what is
    at fault on this line, or one character if that is nothing.  In colour the line is written in
    three pieces, of which the middle one is the part of the text from the start of the fault to
    its end or the end of the line, or the next character if the fault is empty.  At the end
    of the line there is none. -/
theorem diagnosis_marks_span {path text : String} {complaint : Complaint} {start stop : Nat}
    (hcurrent : reporter.current = some path) (htext : reporter.sources.get? path = some text)
    (hstart : complaint.start = some (start : Int)) (hstop : complaint.stop = some (stop : Int))
    (hle : start ≤ stop) (hend : stop ≤ text.length) (hinternal : complaint.internal = false)
    (hdiagnosed : complaint.diagnosed = true)
    (hblank : Text.isBlankText (reporter.locate start).line = false) :
    let address := reporter.locate start
    let line := address.line.toList
    ∃ before behind left right : List Char,
      Text.OnLine text.toList start before line behind ∧
      address.number = before.count '\n' + 1 ∧ before.length + address.column = start ∧
      let lineEnd := before.length + line.length
      let part := (text.toList.take (min (max stop (start + 1)) lineEnd)).drop start
      let width := max 1 (min stop lineEnd - start)
      let place := path ++ ":" ++ Nat.repr address.number ++ ":" ++ Nat.repr address.column ++ ": "
      let indent := "  " ++ String.ofList (List.replicate address.column ' ')
      let mark := String.ofList ('^' :: List.replicate (width - 1) '~')
      line = left ++ part ++ right ∧ left.length = address.column ∧
      ∀ style label report, reporter.Reports complaint style label report →
        (reporter.color = false → report =
          place ++ label ++ ": " ++ complaint.message.text ++ "\n" ++
            "  " ++ String.ofList line ++ "\n" ++ indent ++ mark ++ "\n") ∧
        (reporter.color = true → report =
          Text.Style.bold.paint true place ++ style.paint true (label ++ ": ") ++
            complaint.message.render true ++ "\n" ++
            "  " ++ String.ofList left ++ style.paint true (String.ofList part) ++
            String.ofList right ++ "\n" ++ indent ++ style.paint true mark ++ "\n") := by
  intro address line
  have hsource : reporter.source = text := by
    simp [source, hcurrent, htext]
  have haddress : Text.Address.of text.toList start = address := by
    simp only [address, locate, hsource]
  obtain ⟨before, behind, honLine, hnumber, hcolumn⟩ :=
    exists_onLine hsource (hle.trans hend)
  change Text.OnLine text.toList start before line behind at honLine
  change before.length + address.column = start at hcolumn
  let column := address.column
  let width := max 1 (min (stop - start) (line.length - column))
  have hcolumn_le : column ≤ line.length := by
    have hplace := honLine.place_le
    rw [← hcolumn] at hplace
    exact Nat.le_of_add_le_add_left hplace
  have hwidth : max 1 (min stop (before.length + line.length) - start) = width := by
    simp only [width, column]
    omega
  have hpart : (text.toList.take (min (max stop (start + 1)) (before.length + line.length))).drop
      start = (line.take (column + width)).drop column := honLine.part_eq hcolumn stop
  refine ⟨before, behind, line.take column, line.drop (column + width), honLine, hnumber, hcolumn,
    ?_⟩
  simp only [hpart, hwidth]
  refine ⟨Text.eq_pieces line column width, List.length_take_of_le hcolumn_le,
    fun style label report hreport => ?_⟩
  have hline : address.line = String.ofList line := String.ofList_toList.symm
  have hlength : (stop : Int) - start = (stop - start : Nat) := (Int.ofNat_sub hle).symm
  have hdiagnose := reporter.diagnose_eq style line hcolumn_le (stop - start)
  rw [Nat.cast_add] at hdiagnose
  rw [hreport.eq_present, present_eq hcurrent, body_of_diagnosed hstart hstop hinternal hdiagnosed
    hblank, hstart, addressMark, hsource, haddress, hlength, hline, hdiagnose]
  refine ⟨fun hcolor => ?_, fun hcolor => ?_⟩
  · have hjoined : String.ofList line = String.ofList (line.take column) ++
        String.ofList ((line.take (column + width)).drop column) ++
          String.ofList (line.drop (column + width)) := by
      rw [← String.ofList_append, ← String.ofList_append, ← Text.eq_pieces]
    simp only [hcolor, Text.Style.paint_false, Message.render_false, hjoined, String.append_assoc]
    rfl
  · simp only [hcolor, String.append_assoc]
    rfl

/-- A fault that goes on over the end of its line is marked up to there. -/
theorem diagnosis_marks_span_lines :
    let reporter := (new false false).register "f" "ab\n  cde\ng"
    let complaint := Complaint.located .general [.plain "m"] (some 6) (some 10)
    reporter.warn complaint = "f:2:3: warning: m\n    cde\n     ^~\n" ∧
      (reporter.throw complaint).text = "f:2:3: error: m\n    cde\n     ^~\n" := by
  intro reporter complaint
  obtain ⟨before, behind, left, right, -, -, hcolumn, -, -, hreport⟩ :=
    @diagnosis_marks_span reporter "f" _ complaint 6 10 rfl rfl rfl rfl (by decide) (by decide)
      rfl rfl (by decide)
  have hlocated : (reporter.locate (6 : Nat)).column = 3 := by decide
  have hbefore : before.length = 3 := by
    rw [hlocated] at hcolumn
    exact Nat.add_right_cancel hcolumn
  rw [hbefore] at hreport
  refine ⟨((hreport _ _ _ .warned).1 rfl).trans ?_, ((hreport _ _ _ .thrown).1 rfl).trans ?_⟩
  · decide
  · decide

end Reporter

end CallLang
