/-
  CallLang/Proofs/Escapes.lean
  ============================
  **Texts without escape characters.**

  A terminal takes an escape character for the beginning of a control sequence.  The words of
  the language have none, nor have numerals.  So if there is none in the texts that the tools
  are given, there is none in what they say without colour: a text is `Clean` then, and what is
  put together from clean texts is clean.
-/
import CallLang.Proofs.Diagnoses
import CallLang.Proofs.Notation

namespace CallLang

/-! ### Texts -/

namespace Text

/-- The character that begins a control sequence. -/
def escape : Char := '\x1b'

/-- Whether there is no escape character in a text. -/
def Clean (text : String) : Prop := escape ∉ text.toList

instance (text : String) : Decidable (Clean text) := inferInstanceAs (Decidable (escape ∉ _))

@[simp] theorem clean_append {s t : String} : Clean (s ++ t) ↔ Clean s ∧ Clean t := by
  simp [Clean, String.toList_append, not_or]

@[simp] theorem clean_ofList {text : List Char} : Clean (String.ofList text) ↔ escape ∉ text := by
  rw [Clean, String.toList_ofList]

theorem clean_empty : Clean "" := by
  decide

/-- A clean text is clean as a line, too. -/
theorem clean_line {text : String} (h : Clean text) : Clean (text ++ "\n") :=
  clean_append.2 ⟨h, by decide⟩

theorem clean_of_subset {s t : String} (h : s.toList ⊆ t.toList) (ht : Clean t) : Clean s :=
  fun hmem => ht (h hmem)

theorem clean_join {texts : List String} : Clean (String.join texts) ↔ ∀ t ∈ texts, Clean t := by
  simp [Clean, String.toList_join]

theorem clean_commaSeparated {texts : List String} (h : ∀ t ∈ texts, Clean t) :
    Clean (commaSeparated texts) := by
  induction texts with
  | nil => decide
  | cons first rest ih =>
      cases rest with
      | nil =>
          rw [commaSeparated, String.intercalate_singleton]
          exact h first List.mem_cons_self
      | cons second rest =>
          rw [commaSeparated, String.intercalate_cons_cons, clean_append, clean_append]
          exact ⟨⟨h first List.mem_cons_self, by decide⟩,
            ih fun t hmem => h t (List.mem_cons_of_mem _ hmem)⟩

theorem escape_ne_of_isDigit {c : Char} (h : c.isDigit = true) : c ≠ escape := by
  rintro rfl
  exact absurd h (by decide)

@[simp] theorem clean_repr (n : Nat) : Clean (Nat.repr n) :=
  fun hmem => escape_ne_of_isDigit ((numeral_repr n).isDigit _ hmem) rfl

theorem clean_ofInt (n : Int) : Clean (ofInt n) := by
  intro hmem
  rcases mem_ofInt _ hmem with h | h
  · exact escape_ne_of_isDigit h rfl
  · exact absurd h (by decide)

theorem clean_hexDigits (width n : Nat) : escape ∉ hexDigits width n := by
  induction width generalizing n with
  | zero => exact List.not_mem_nil
  | succ width ih =>
      have hdigit : ∀ digit < 16, escape ≠ hexDigit digit := by decide
      rw [hexDigits, List.mem_append, not_or, List.mem_singleton]
      exact ⟨ih _, hdigit _ (Nat.mod_lt n (by decide))⟩

theorem slice_subset (text : List Char) (start stop : Int) : slice text start stop ⊆ text :=
  fun _ hmem => List.mem_of_mem_take (List.mem_of_mem_drop hmem)

/-- The line of an address is a part of the text. -/
theorem Address.line_subset (text : List Char) (offset : Int) :
    (Address.of text offset).line.toList ⊆ text := by
  obtain ⟨before, behind, honLine, -⟩ := Address.exists_onLine text offset
  intro c hmem
  rw [honLine.text_eq]
  exact List.mem_append_right _ (List.mem_append_left _ hmem)

end Text

open Text (Clean)

/-! ### Words -/

theorem Form.clean_word (form : Form) : Clean form.word := by
  cases form <;> decide

theorem Builtin.clean_name (function : Builtin) : Clean function.name := by
  cases function <;> decide

theorem Kind.clean_word (kind : Kind) : Clean kind.word := by
  cases kind <;> decide

theorem Category.clean_label (category : Category) : Clean category.label := by
  cases category <;> decide

/-! ### Numbers -/

theorem Double.clean_write (x : Double) : Clean x.write := by
  have hmagnitude : Text.escape ∉ x.magnitudeText := by
    cases x with
    | nan => decide
    | infinite negative => exact (by decide : Text.escape ∉ ['i', 'n', 'f'])
    | finite negative units h =>
        rw [magnitudeText]
        split
        · decide
        · intro hmem
          have hnotes := (notates_write Layout.double (shortest units)).shape.2.2 _ hmem
          exact absurd hnotes (by decide)
  rw [Clean, toList_write]
  split
  · exact fun hmem => (List.mem_cons.1 hmem).elim (by decide) hmagnitude
  · exact hmagnitude

theorem Number.clean_of_display {number : Number} {text : String} (h : number.display = .ok text) :
    Clean text := by
  have hint : ∀ n, writeInt n = .ok text → Clean text := by
    intro n hn
    unfold writeInt at hn
    split at hn
    · exact Except.ok.inj hn ▸ Text.clean_ofInt n
    · cases hn
  cases number with
  | int n => exact hint n h
  | double x =>
      simp only [display] at h
      cases hn : x.toInt? with
      | some n =>
          rw [hn] at h
          exact hint n h
      | none =>
          rw [hn] at h
          exact Except.ok.inj h ▸ x.clean_write

/-! ### Messages -/

namespace Message

@[simp] theorem text_append (message message' : Message) :
    text (message ++ message') = message.text ++ message'.text := by
  rw [text, List.map_append, String.join_append]
  rfl

@[simp] theorem text_about (before piece behind : String) :
    text (Mistake.about before piece behind) = before ++ (piece ++ behind) := by
  simp [text, Mistake.about, Segment.text]

theorem clean_about {before piece behind : String} (hbefore : Clean before) (hpiece : Clean piece)
    (hbehind : Clean behind) : Clean (text (Mistake.about before piece behind)) := by
  rw [text_about]
  exact Text.clean_append.2 ⟨hbefore, Text.clean_append.2 ⟨hpiece, hbehind⟩⟩

@[simp] theorem text_plain (words : String) : text [.plain words] = words := by
  simp [text, Segment.text]

end Message

/-- The message of a mistake is clean if the texts are that it quotes. -/
theorem Mistake.clean_message {cause : Mistake} (h : ∀ text ∈ cause.quoted, Clean text) :
    Clean cause.message.text := by
  cases cause with
  | unexpected line =>
      have hline := h line List.mem_cons_self
      simp +decide [message, hline]
  | unbound name =>
      have hname := h name List.mem_cons_self
      simp +decide [message, hname]
  | argumentCount function expected got =>
      have hfunction := h function List.mem_cons_self
      simp +decide [message, hfunction]
  | notFunction kind shown =>
      have hshown := h shown List.mem_cons_self
      simp +decide [message, hshown, kind.clean_word]
  | indexRange shown length =>
      have hshown := h shown List.mem_cons_self
      simp +decide [message, hshown]
  | formArity form expected got => simp +decide [message, form.clean_word]
  | operands function strings left right =>
      cases strings <;>
        simp +decide [message, function.clean_name, left.clean_word, right.clean_word]
  | lengthOf kind => simp +decide [message, kind.clean_word]
  | elementOf kind => simp +decide [message, kind.clean_word]
  | indexKind kind => simp +decide [message, kind.clean_word]
  | _ => decide

/-! ### Endings -/

/-- Whether a breakdown is clean: the name of its kind, and its text. -/
def Breakdown.Clean (cause : Breakdown) : Prop :=
  Text.Clean cause.name ∧ Text.Clean cause.text

/-- Whether everything is clean that an ending is reported with. -/
def Ending.Clean : Ending → Prop
  | .complaint reported => Text.Clean reported.message.text
  | .breakdown cause => cause.Clean
  | _ => True

def Stop.Clean (reason : Stop) : Prop :=
  reason.ending.Clean

theorem Stop.clean_mistake (cause : Mistake) (h : ∀ text ∈ cause.quoted, Text.Clean text)
    (place : Option Span) : Stop.Clean (.mistake cause place) :=
  Mistake.clean_message h

theorem Stop.clean_breakdown {cause : Breakdown} (h : cause.Clean) :
    Stop.Clean (.breakdown cause) :=
  h

namespace Breakdown

theorem clean_tooDeep : tooDeep.Clean :=
  ⟨by decide, by decide⟩

theorem clean_beyondDoubles : beyondDoubles.Clean :=
  ⟨by decide, by decide⟩

theorem clean_noPlace : noPlace.Clean :=
  ⟨by decide, by decide⟩

theorem clean_digitLimit {number : String} (h : Text.Clean number) :
    Text.Clean (digitLimit number) := by
  have hopening : Text.Clean "Exceeds the limit (" := by decide
  have hlimit : Text.Clean " digits) for integer string conversion" := by decide
  have hbehind : Text.Clean "; use sys.set_int_max_str_digits() to increase the limit" := by
    decide +kernel
  have hbefore := Text.clean_append.2
    ⟨Text.clean_append.2 ⟨hopening, Text.clean_repr maxDigits⟩, hlimit⟩
  exact Text.clean_append.2 ⟨Text.clean_append.2 ⟨hbefore, h⟩, hbehind⟩

theorem clean_longNumeral (digits : Nat) : (longNumeral digits).Clean := by
  have hname : Text.Clean "ValueError" := by decide
  have hbefore : Text.Clean ": value has " := by decide
  have hbehind : Text.Clean " digits" := by decide
  refine ⟨hname, clean_digitLimit ?_⟩
  simp only [Text.clean_append, Text.clean_repr, hbefore, hbehind, and_self]

theorem clean_longInteger : longInteger.Clean :=
  ⟨by decide, clean_digitLimit (by decide)⟩

theorem clean_undecodable (fault : Text.Undecodable) : (undecodable fault).Clean := by
  have hname : Text.Clean "UnicodeDecodeError" := by decide
  have hreason : Text.Clean (malformation fault.reason) := by
    cases fault.reason <;> decide
  have hbefore : Text.Clean "'utf-8' codec can't decode " := by decide
  have hbetween : Text.Clean ": " := by decide
  refine ⟨hname, Text.clean_append.2 ⟨Text.clean_append.2 ⟨Text.clean_append.2 ⟨hbefore, ?_⟩,
    hbetween⟩, hreason⟩⟩
  split <;> simp +decide [Text.clean_hexDigits]

end Breakdown

/-! ### Templates -/

namespace Template

variable {arguments : List String} {message : Message}

end Template

/-! ### Reports -/

namespace Reporter

/-- Whether everything is clean that a reporter knows: all paths and sources. -/
structure Clean (reporter : Reporter) : Prop where
  sources : ∀ path source, reporter.sources.get? path = some source →
    Text.Clean path ∧ Text.Clean source
  current : ∀ path, reporter.current = some path → Text.Clean path

variable {reporter : Reporter}

theorem clean_of_empty (hsources : reporter.sources = []) (hcurrent : reporter.current = none) :
    reporter.Clean := by
  refine ⟨fun path source hsource => ?_, fun path hpath => ?_⟩
  · rw [hsources] at hsource
    cases hsource
  · rw [hcurrent] at hpath
    cases hpath

theorem Clean.register (h : reporter.Clean) {path source : String} (hpath : Text.Clean path)
    (hsource : Text.Clean source) : (reporter.register path source).Clean := by
  refine ⟨fun other text htext => ?_, fun other hother => Option.some.inj hother ▸ hpath⟩
  rw [Reporter.register, Table.get?_set] at htext
  split at htext
  · next hsame => exact ⟨hsame ▸ hpath, Option.some.inj htext ▸ hsource⟩
  · exact h.sources other text htext

theorem Clean.remove (h : reporter.Clean) (path : String) : (reporter.remove path).Clean := by
  have hsources : ∀ other source, (reporter.sources.erase path).get? other = some source →
      Text.Clean other ∧ Text.Clean source := by
    intro other source hsource
    rw [Table.get?_erase] at hsource
    split at hsource
    · cases hsource
    · exact h.sources other source hsource
  refine ⟨hsources, fun other hcurrent => ?_⟩
  obtain ⟨source, hsource⟩ := Table.mem_names_iff.1 (Table.mem_names_of_newest? hcurrent)
  exact (hsources other source hsource).1

theorem Clean.throw (h : reporter.Clean) (complaint : Complaint) :
    (reporter.throw complaint).reporter.Clean := by
  rcases (reporter.throw_cases complaint).2 with heq | heq <;> rw [heq]
  · exact h
  · exact clean_of_empty rfl rfl

theorem Clean.settle (h : reporter.Clean) (ending : Ending) :
    (reporter.settle ending).reporter.Clean := by
  rcases reporter.settle_cases ending with ⟨-, heq⟩ | ⟨complaint, -, heq⟩ <;> rw [heq]
  · exact h
  · exact h.throw complaint

theorem Clean.source (h : reporter.Clean) : Text.Clean reporter.source := by
  rw [Reporter.source]
  cases hsource : reporter.current.bind fun path => reporter.sources.get? path with
  | none => exact Text.clean_empty
  | some source =>
      obtain ⟨path, -, hfound⟩ := Option.bind_eq_some_iff.1 hsource
      exact (h.sources path source hfound).2

theorem Clean.line (h : reporter.Clean) (offset : Int) :
    Text.Clean (reporter.locate offset).line :=
  Text.clean_of_subset (Text.Address.line_subset _ offset) h.source

/-- A line is shown with blanks, marks, and nothing else around it. -/
theorem clean_diagnose (hcolor : reporter.color = false) (style : Text.Style) {line : String}
    (hline : Text.Clean line) (start stop : Int) :
    Text.Clean (reporter.diagnose style line start stop) := by
  have hpart : ∀ part ⊆ line.toList, Text.escape ∉ part := fun part hsubset hmem =>
    hline (hsubset hmem)
  have hblanks : ∀ n, Text.escape ∉ List.replicate n ' ' := fun n hmem =>
    absurd (List.eq_of_mem_replicate hmem) (by decide)
  have hmarks : ∀ n, Text.escape ∉ List.replicate n '~' := fun n hmem =>
    absurd (List.eq_of_mem_replicate hmem) (by decide)
  have hmark : Text.escape ≠ '^' := by decide
  have hmargin : Text.Clean "  " := by decide
  have hfeed : Text.Clean "\n" := by decide
  simp only [diagnose, hcolor, Text.Style.paint_false, Text.clean_append, Text.clean_ofList,
    List.mem_cons, not_or]
  exact ⟨⟨⟨⟨⟨⟨⟨hmargin, hpart _ (List.take_subset _ _)⟩, hpart _ (Text.slice_subset _ _ _)⟩,
    hpart _ (List.drop_subset _ _)⟩, hfeed⟩, hmargin⟩, hblanks _⟩, hmark, hmarks _⟩

/-- What a report says between its place and the line that it is about. -/
def heading (reporter : Reporter) (style : Text.Style) (label : String) (complaint : Complaint) :
    String :=
  (if complaint.internal then Text.Style.error.paint reporter.color "[internal] " else "") ++
    style.paint reporter.color (label ++ ": ") ++ complaint.message.render reporter.color ++ "\n"

theorem body_eq (reporter : Reporter) (style : Text.Style) (label : String)
    (complaint : Complaint) : reporter.body style label complaint =
      reporter.heading style label complaint ++ reporter.diagnosis style complaint := rfl

/-- Without a source, a report says neither a place nor a line. -/
theorem present_of_none (h : reporter.current = none) (style : Text.Style) (label : String)
    (complaint : Complaint) :
    reporter.present style label complaint = reporter.heading style label complaint := by
  unfold present heading
  rw [h]
  cases complaint.start <;> simp

theorem clean_heading (hcolor : reporter.color = false) (style : Text.Style) {label : String}
    (hlabel : Text.Clean label) {complaint : Complaint}
    (hmessage : Text.Clean complaint.message.text) :
    Text.Clean (reporter.heading style label complaint) := by
  have hinternal : Text.Clean (if complaint.internal then "[internal] " else "") := by
    cases complaint.internal <;> decide
  have hgap : Text.Clean ": " := by decide
  have hfeed : Text.Clean "\n" := by decide
  simp only [heading, hcolor, Text.Style.paint_false, Message.render_false, Text.clean_append]
  exact ⟨⟨⟨hinternal, hlabel, hgap⟩, hmessage⟩, hfeed⟩

theorem Clean.diagnosis (h : reporter.Clean) (hcolor : reporter.color = false)
    (style : Text.Style) (complaint : Complaint) :
    Text.Clean (reporter.diagnosis style complaint) := by
  unfold Reporter.diagnosis
  split
  · exact Text.clean_empty
  · next start _ =>
      simp only
      split
      · exact Text.clean_empty
      · exact Text.clean_line (clean_diagnose hcolor style (h.line start) _ _)

theorem clean_addressMark (source : String) (start : Option Int) :
    Text.Clean (addressMark source start) := by
  cases start with
  | none => exact (by decide : Text.Clean ": ")
  | some offset => simp +decide [addressMark]

/-- Without colour, a report says no more than its label, its message, and what the reporter
    knows. -/
theorem Clean.present (h : reporter.Clean) (hcolor : reporter.color = false) (style : Text.Style)
    {label : String} (hlabel : Text.Clean label) {complaint : Complaint}
    (hmessage : Text.Clean complaint.message.text) :
    Text.Clean (reporter.present style label complaint) := by
  have hheading := clean_heading hcolor style hlabel hmessage
  cases hcurrent : reporter.current with
  | none =>
      rw [present_of_none hcurrent]
      exact hheading
  | some path =>
      rw [present_eq hcurrent, body_eq, hcolor, Text.Style.paint_false, Text.clean_append,
        Text.clean_append, Text.clean_append]
      exact ⟨⟨h.current path hcurrent, clean_addressMark _ _⟩, hheading,
        h.diagnosis hcolor style complaint⟩

end Reporter

end CallLang
