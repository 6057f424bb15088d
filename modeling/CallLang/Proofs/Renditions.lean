/-
  CallLang/Proofs/Renditions.lean
  ===============================
  **Reports in colour.**

  With colour, pieces of a report stand between renditions, that is between control sequences
  that select how the terminal shows what follows.  Nothing else changes: without its
  renditions a report is what is written without colour (`Decorates`).  As long as no escape
  character stands in the report itself, no sequence in it can be taken for a rendition, so
  all renditions can be told from the text and removed (`unpainted`).

  A message in colour is its template, filled with the arguments in bold.  Nothing that is done
  with a reporter depends on whether it uses colour, except for what is written.
-/
import CallLang.Proofs.Escapes

namespace CallLang

namespace Text

/-! ### Renditions -/

/-- Whether a character can stand between the brackets and the end of a rendition. -/
def isParameter (c : Char) : Bool :=
  c.isDigit || c = ';'

/-- What stands behind a rendition, if a text begins with one. -/
def behindRendition? : List Char → Option (List Char)
  | c :: '[' :: rest =>
    if c = escape then
      match rest.dropWhile isParameter with
      | 'm' :: behind => some behind
      | _ => none
    else none
  | _ => none

theorem length_of_behindRendition? {text behind : List Char}
    (h : behindRendition? text = some behind) : behind.length < text.length := by
  unfold behindRendition? at h
  split at h
  · next c rest =>
      split at h
      · split at h
        · next behind' hrest =>
            obtain rfl := Option.some.inj h
            have hlength := (List.dropWhile_sublist (l := rest) isParameter).length_le
            rw [hrest] at hlength
            simp only [List.length_cons] at hlength ⊢
            omega
        · cases h
      · cases h
  · cases h

/-- A text without the renditions in it. -/
def withoutRenditions (text : List Char) : List Char :=
  match _h : behindRendition? text with
  | some behind => withoutRenditions behind
  | none =>
    match text with
    | [] => []
    | c :: rest => c :: withoutRenditions rest
termination_by text.length
decreasing_by
  · exact length_of_behindRendition? ‹_›
  · exact Nat.lt_succ_self _

def unpainted (text : String) : String :=
  String.ofList (withoutRenditions text.toList)

theorem toList_rendition (code : Nat) :
    (rendition code).toList = escape :: '[' :: ((Nat.repr code).toList ++ ['m']) := by
  simp [rendition, escape]

theorem behindRendition?_rendition (code : Nat) (behind : List Char) :
    behindRendition? ((rendition code).toList ++ behind) = some behind := by
  have hdigits : ∀ c ∈ (Nat.repr code).toList, isParameter c = true := by
    intro c hc
    simp [isParameter, (numeral_repr code).isDigit c hc]
  rw [toList_rendition]
  simp only [List.cons_append, List.append_assoc, List.nil_append, behindRendition?, if_true,
    List.dropWhile_append_of_pos hdigits]
  rfl

theorem withoutRenditions_rendition (code : Nat) (behind : List Char) :
    withoutRenditions ((rendition code).toList ++ behind) = withoutRenditions behind := by
  rw [withoutRenditions]
  split
  · next other hother =>
      rw [behindRendition?_rendition] at hother
      rw [Option.some.inj hother]
  · next hother =>
      rw [behindRendition?_rendition] at hother
      cases hother

theorem withoutRenditions_cons {c : Char} (hc : c ≠ escape) (rest : List Char) :
    withoutRenditions (c :: rest) = c :: withoutRenditions rest := by
  have hnone : behindRendition? (c :: rest) = none := by
    unfold behindRendition?
    split
    · next heq =>
        obtain ⟨rfl, -⟩ := List.cons.inj heq
        rw [if_neg hc]
    · rfl
  rw [withoutRenditions]
  split
  · next behind hbehind =>
      rw [hnone] at hbehind
      cases hbehind
  · rfl

/-! ### Decoration -/

/-- Whether characters are others with renditions among them. -/
inductive DecoratesChars : List Char → List Char → Prop where
  | nil : DecoratesChars [] []
  | cons (c : Char) {painted plain : List Char} (h : DecoratesChars painted plain) :
      DecoratesChars (c :: painted) (c :: plain)
  | rendition (code : Nat) {painted plain : List Char} (h : DecoratesChars painted plain) :
      DecoratesChars ((rendition code).toList ++ painted) plain

/-- Whether a text is another one with renditions in it. -/
def Decorates (painted plain : String) : Prop :=
  DecoratesChars painted.toList plain.toList

theorem DecoratesChars.append {painted plain painted' plain' : List Char}
    (h : DecoratesChars painted plain) (h' : DecoratesChars painted' plain') :
    DecoratesChars (painted ++ painted') (plain ++ plain') := by
  induction h with
  | nil => exact h'
  | cons c _ ih => exact .cons c ih
  | rendition code _ ih =>
      rw [List.append_assoc]
      exact .rendition code ih

theorem DecoratesChars.refl (text : List Char) : DecoratesChars text text := by
  induction text with
  | nil => exact .nil
  | cons c rest ih => exact .cons c ih

/-- If there is no escape character in a text, decoration can be removed from it. -/
theorem DecoratesChars.withoutRenditions {painted plain : List Char}
    (h : DecoratesChars painted plain) (hclean : escape ∉ plain) :
    Text.withoutRenditions painted = plain := by
  induction h with
  | nil =>
      rw [Text.withoutRenditions]
      rfl
  | cons c h ih =>
      obtain ⟨hc, hrest⟩ := not_or.1 (mt List.mem_cons.2 hclean)
      rw [withoutRenditions_cons (Ne.symm hc), ih hrest]
  | rendition code h ih => rw [withoutRenditions_rendition, ih hclean]

namespace Decorates

theorem refl (text : String) : Decorates text text :=
  DecoratesChars.refl _

theorem append {painted plain painted' plain' : String} (h : Decorates painted plain)
    (h' : Decorates painted' plain') : Decorates (painted ++ painted') (plain ++ plain') := by
  rw [Decorates, String.toList_append, String.toList_append]
  exact DecoratesChars.append h h'

theorem rendition (code : Nat) : Decorates (Text.rendition code) "" := by
  rw [Decorates, ← List.append_nil (Text.rendition code).toList]
  exact .rendition code .nil

theorem join {α : Type} {items : List α} {painted plain : α → String}
    (h : ∀ item ∈ items, Decorates (painted item) (plain item)) :
    Decorates (String.join (items.map painted)) (String.join (items.map plain)) := by
  induction items with
  | nil => exact .refl _
  | cons item rest ih =>
      rw [List.map_cons, List.map_cons, String.join_cons, String.join_cons]
      exact append (h item List.mem_cons_self)
        (ih fun other hmem => h other (List.mem_cons_of_mem item hmem))

theorem renditions (codes : List Nat) :
    Decorates (String.join (codes.map Text.rendition)) "" := by
  induction codes with
  | nil => exact .refl _
  | cons code rest ih =>
      rw [List.map_cons, String.join_cons]
      exact (rendition code).append ih

theorem paint (style : Style) (text : String) :
    Decorates (style.paint true text) (style.paint false text) := by
  have hpainted := ((renditions style.codes).append (refl text)).append (rendition 0)
  rw [String.empty_append, String.append_empty] at hpainted
  exact hpainted

theorem unpainted {painted plain : String} (h : Decorates painted plain) (hclean : Clean plain) :
    Text.unpainted painted = plain := by
  rw [Text.unpainted, DecoratesChars.withoutRenditions h hclean, String.ofList_toList]

end Decorates

end Text

open Text (Decorates)

/-! ### Reports -/

theorem Segment.decorates (segment : Segment) :
    Decorates (segment.render true) (segment.render false) := by
  cases segment with
  | plain text => exact .refl text
  | emphasised text => exact .paint .bold text

theorem Message.decorates (message : Message) :
    Decorates (message.render true) (message.render false) :=
  .join fun segment _ => segment.decorates

namespace Template

end Template

namespace Reporter

/-- A reporter that uses colour or does not. -/
def withColor (color : Bool) (reporter : Reporter) : Reporter :=
  { reporter with color }

variable (reporter : Reporter)

theorem diagnose_decorates (style : Text.Style) (line : String) (start stop : Int) :
    Decorates ((reporter.withColor true).diagnose style line start stop)
      ((reporter.withColor false).diagnose style line start stop) := by
  refine ((((((Decorates.refl _).append (.paint style _)).append (.refl _)).append
    (.refl _)).append (.refl _)).append (.refl _)).append (.paint style _)

theorem heading_decorates (style : Text.Style) (label : String) (complaint : Complaint) :
    Decorates ((reporter.withColor true).heading style label complaint)
      ((reporter.withColor false).heading style label complaint) := by
  have hinternal : Decorates
      (if complaint.internal then Text.Style.error.paint true "[internal] " else "")
      (if complaint.internal then Text.Style.error.paint false "[internal] " else "") := by
    split
    · exact .paint .error _
    · exact .refl _
  exact ((hinternal.append (.paint style _)).append complaint.message.decorates).append (.refl _)

theorem diagnosis_decorates (style : Text.Style) (complaint : Complaint) :
    Decorates ((reporter.withColor true).diagnosis style complaint)
      ((reporter.withColor false).diagnosis style complaint) := by
  have hlocate : ∀ color offset,
      (reporter.withColor color).locate offset = reporter.locate offset := fun _ _ => rfl
  unfold diagnosis
  split
  · exact .refl _
  · simp only [hlocate]
    split
    · exact .refl _
    · exact (reporter.diagnose_decorates style _ _ _).append (.refl _)

/-- A report in colour is the one without colour with renditions in it. -/
theorem present_decorates (style : Text.Style) (label : String) (complaint : Complaint) :
    Decorates ((reporter.withColor true).present style label complaint)
      ((reporter.withColor false).present style label complaint) := by
  have hheading := reporter.heading_decorates style label complaint
  cases hcurrent : reporter.current with
  | none =>
      have hnone : ∀ color, (reporter.withColor color).current = none := fun _ => hcurrent
      rw [present_of_none (hnone true), present_of_none (hnone false)]
      exact hheading
  | some path =>
      have hsome : ∀ color, (reporter.withColor color).current = some path := fun _ => hcurrent
      rw [present_eq (hsome true), present_eq (hsome false), body_eq, body_eq]
      exact (Decorates.paint .bold _).append
        (hheading.append (reporter.diagnosis_decorates style complaint))

/-! ### Steps -/

theorem throw_withColor (color : Bool) (complaint : Complaint) :
    ((reporter.withColor color).throw complaint).reporter =
        (reporter.throw complaint).reporter.withColor color ∧
      ((reporter.withColor color).throw complaint).leaving =
        (reporter.throw complaint).leaving := by
  cases hfatal : reporter.fatal <;> simp [throw, withColor, clear, hfatal]

/-- What is done with an ending does not depend on colour. -/
theorem settle_withColor (color : Bool) (ending : Ending) :
    ((reporter.withColor color).settle ending).reporter =
        (reporter.settle ending).reporter.withColor color ∧
      ((reporter.withColor color).settle ending).leaving =
        (reporter.settle ending).leaving := by
  cases ending with
  | complaint complaint => exact reporter.throw_withColor color complaint
  | interrupt => exact reporter.throw_withColor color _
  | breakdown cause =>
      cases cause with
      | tooDeep => exact reporter.throw_withColor color _
      | _ =>
          refine ⟨(reporter.throw_withColor color _).1, ?_⟩
          simp only [settle, (reporter.throw_withColor color _).2]
  | exit status => exact ⟨rfl, rfl⟩
  | unfinished => exact ⟨rfl, rfl⟩

theorem throw_decorates (complaint : Complaint) :
    Decorates ((reporter.withColor true).throw complaint).text
      ((reporter.withColor false).throw complaint).text := by
  rw [(throw_cases _ complaint).1, (throw_cases _ complaint).1]
  exact reporter.present_decorates _ _ complaint

theorem settle_decorates (ending : Ending) :
    Decorates ((reporter.withColor true).settle ending).text
      ((reporter.withColor false).settle ending).text := by
  cases ending with
  | complaint complaint => exact reporter.throw_decorates complaint
  | interrupt => exact reporter.throw_decorates _
  | breakdown cause =>
      cases cause <;> exact reporter.throw_decorates _
  | exit status => exact .refl _
  | unfinished => exact .refl _

/-- Whether an ending is reported at all does not depend on colour either. -/
theorem isEmpty_settle_withColor (color : Bool) (ending : Ending) :
    ((reporter.withColor color).settle ending).text.isEmpty =
      (reporter.settle ending).text.isEmpty := by
  have hthrow : ∀ (reporter : Reporter) complaint,
      (reporter.throw complaint).text.isEmpty = false := by
    intro reporter complaint
    rw [(throw_cases reporter complaint).1]
    exact reporter.isEmpty_present _ _ complaint
  cases ending with
  | complaint complaint => exact (hthrow _ _).trans (hthrow _ _).symm
  | interrupt => exact (hthrow _ _).trans (hthrow _ _).symm
  | breakdown cause => cases cause <;> exact (hthrow _ _).trans (hthrow _ _).symm
  | exit status => rfl
  | unfinished => rfl

/-- Whether all texts are clean that a step brings. -/
def Step.Clean : Step → Prop
  | .register path source => Text.Clean path ∧ Text.Clean source
  | .remove _ => True
  | .warn complaint => Text.Clean complaint.message.text
  | .throw complaint => Text.Clean complaint.message.text
  | .settle ending => ending.Clean

variable {reporter}

theorem Clean.text_throw (h : reporter.Clean) (hcolor : reporter.color = false)
    {complaint : Complaint} (hmessage : Text.Clean complaint.message.text) :
    Text.Clean (reporter.throw complaint).text := by
  rw [(throw_cases _ complaint).1]
  exact h.present hcolor .error complaint.category.clean_label hmessage

/-- Without colour, what is written of a clean ending is clean. -/
theorem Clean.text_settle (h : reporter.Clean) (hcolor : reporter.color = false)
    {ending : Ending} (hending : ending.Clean) : Text.Clean (reporter.settle ending).text := by
  cases ending with
  | complaint complaint => exact h.text_throw hcolor hending
  | interrupt => exact h.text_throw hcolor (by decide)
  | breakdown cause =>
      have hbefore : Text.Clean "unknown error: '" := by decide
      have hbetween : Text.Clean ": " := by decide
      have hbehind : Text.Clean "'" := by decide
      have hcause : Text.Clean (internalComplaint cause).message.text := by
        have hdescribed := Text.clean_append.2
          ⟨Text.clean_append.2 ⟨hending.1, hbetween⟩, hending.2⟩
        exact Message.clean_about hbefore hdescribed hbehind
      cases cause with
      | tooDeep => exact h.text_throw hcolor (by decide)
      | _ => exact h.text_throw hcolor hcause
  | exit status => exact Text.clean_empty
  | unfinished => exact Text.clean_empty

theorem Clean.act (h : reporter.Clean) {step : Step} (hstep : step.Clean) :
    (reporter.act step).reporter.Clean := by
  cases step with
  | register path source => exact h.register hstep.1 hstep.2
  | remove path => exact h.remove path
  | warn complaint => exact h
  | throw complaint => exact h.throw complaint
  | settle ending => exact h.settle ending

theorem color_act (reporter : Reporter) (step : Step) :
    (reporter.act step).reporter.color = reporter.color := by
  have hthrow : ∀ complaint, (reporter.throw complaint).reporter.color = reporter.color := by
    intro complaint
    rcases (reporter.throw_cases complaint).2 with heq | heq <;> rw [heq]
    rfl
  cases step with
  | throw complaint => exact hthrow complaint
  | settle ending =>
      change (reporter.settle ending).reporter.color = reporter.color
      rcases reporter.settle_cases ending with ⟨-, heq⟩ | ⟨complaint, -, heq⟩ <;> rw [heq]
      exact hthrow complaint
  | _ => rfl

theorem Clean.text_act (h : reporter.Clean) (hcolor : reporter.color = false) {step : Step}
    (hstep : step.Clean) : Text.Clean (reporter.act step).text := by
  cases step with
  | register path source => exact Text.clean_empty
  | remove path => exact Text.clean_empty
  | warn complaint => exact h.present hcolor .warning (by decide) hstep
  | throw complaint => exact h.text_throw hcolor hstep
  | settle ending => exact h.text_settle hcolor hstep

end Reporter

end CallLang
