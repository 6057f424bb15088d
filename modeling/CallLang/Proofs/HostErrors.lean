/-
  CallLang/Proofs/HostErrors.lean
  ===============================
  **Which breakdowns can end a program.**

  A program that is run by itself and not cut off by a limit has a value, makes a
  mistake, or breaks down; and it breaks down exactly if the first step of its
  execution that fails is one of a few: a numeral is too long to be read, an integer
  beyond the range of doubles meets a double, or an integer is too long to be shown.
-/
import CallLang.Proofs.Executions
import CallLang.Proofs.PlainRuns

namespace CallLang

namespace Process

/-- The moment in which the evaluation of a program begins: in a new scope inside the global
    one. -/
def start (process : Process) (program : Expr) : Moment :=
  { expr := program
    scope := process.store.scopes.size
    store := (process.store.create (some process.globals) []).2 }

/-- What the first step that fails in the execution of a program fails for, if it breaks
    down: a numeral that the reader comes to, or an application that the evaluation comes
    to. -/
inductive FirstFailure (process : Process) (source : String) : Breakdown → Prop where
  | numeral {digits : List Char}
      (hmeets : Reader.Meets source.toList digits (.awaiting .start) [] 0 (lexemes source))
      (hlong : maxDigits < digits.length) :
      FirstFailure process source (.longNumeral digits.length)
  | application {d : Grammar.Derivation} {last : Moment} {cause : Breakdown}
      (hderives : d.Derives source) (hreaches : (process.start d.expr).Reaches last)
      (hbreaks : last.Breaks cause) : FirstFailure process source cause

variable {process : Process} {limits : Limits} {source : String}

theorem run_of_parse_error {reason : Stop} (h : Expr.parse limits.depth source = .error reason)
    (process : Process) :
    limits.run source process.globals process.store = (.error reason, process.store) := by
  simp only [Limits.run, Action.bind, Action.ofExcept, h]

theorem run_of_parse_ok {program : Expr} (h : Expr.parse limits.depth source = .ok program)
    (process : Process) :
    limits.run source process.globals process.store = (process.start program).run limits := by
  simp only [Limits.run, Action.bind, Action.ofExcept, Action.create, h]
  rfl

theorem ended_parse
    (hended : Ended (limits.run source process.globals process.store).1) :
    Ended (Expr.parse limits.depth source) := by
  cases h : Expr.parse limits.depth source with
  | error reason =>
      rw [run_of_parse_error h] at hended
      exact ended_error hended
  | ok program => exact ended_ok program

theorem FirstFailure.name {cause : Breakdown} (h : process.FirstFailure source cause) :
    cause.name = if cause = .beyondDoubles then "OverflowError" else "ValueError" := by
  cases h with
  | numeral _ _ => rfl
  | application _ _ hbreaks =>
      obtain ⟨callee, values, after, -, hbreaks⟩ := hbreaks
      rcases hbreaks.cause with rfl | rfl <;> rfl

theorem run_breaks_iff (hplain : process.store.Plain)
    (hended : Ended (limits.run source process.globals process.store).1) (cause : Breakdown) :
    (limits.run source process.globals process.store).1 = .error (.breakdown cause) ↔
      process.FirstFailure source cause := by
  have hparse := ended_parse hended
  have hplace : (limits.run source process.globals process.store).1 = .error (.breakdown cause) →
      cause ≠ .noPlace := fun h => (plain_run limits source process.globals hplain).2 _ h
  cases hprogram : Expr.parse limits.depth source with
  | error reason =>
      rw [run_of_parse_error hprogram] at hended ⊢
      have hreason : Expr.parse limits.depth source = .error (.breakdown cause) ↔ _ :=
        Reader.parse_breakdown_iff hparse
      rw [hprogram, Except.error.injEq] at hreason
      rw [Except.error.injEq, hreason]
      constructor
      · rintro ⟨digits, hmeets, hlong, rfl⟩
        exact .numeral hmeets hlong
      · intro h
        cases h with
        | numeral hmeets hlong => exact ⟨_, hmeets, hlong, rfl⟩
        | application hderives _ _ =>
            have hok := (Reader.parse_ok_iff hparse _).2 ⟨_, hderives, rfl⟩
            rw [hprogram] at hok
            cases hok
  | ok program =>
      rw [run_of_parse_ok hprogram] at hended hplace ⊢
      constructor
      · intro h
        obtain ⟨last, hreaches, hbreaks⟩ := (Moment.run_breaks_iff (hplace h) hended).1 h
        obtain ⟨d, hderives, rfl⟩ := (Reader.parse_ok_iff hparse program).1 hprogram
        exact .application hderives hreaches hbreaks
      · intro h
        cases h with
        | numeral hmeets hlong =>
            have herror := (Reader.parse_breakdown_iff hparse).2 ⟨_, hmeets, hlong, rfl⟩
            rw [hprogram] at herror
            cases herror
        | application hderives hreaches hbreaks =>
            have hok := (Reader.parse_ok_iff hparse _).2 ⟨_, hderives, rfl⟩
            obtain rfl := Except.ok.inj (hprogram.symm.trans hok)
            refine (Moment.run_breaks_iff ?_ hended).2 ⟨_, hreaches, hbreaks⟩
            obtain ⟨callee, values, after, -, hbreaks⟩ := hbreaks
            rcases hbreaks.cause with rfl | rfl <;> exact nofun

/-- What comes of a program that is not cut off. -/
theorem run_cases (hplain : process.store.Plain)
    (hended : Ended (limits.run source process.globals process.store).1) :
    let result := (limits.run source process.globals process.store).1
    (∃ value, result = .ok value) ∨
      (∃ cause place, result = .error (.mistake cause place) ∧ cause.category ≠ .general) ∨
      ∃ cause, result = .error (.breakdown cause) := by
  intro result
  have hordinary : ∀ reason, result = .error reason → reason.Ordinary :=
    (plain_run limits source process.globals hplain).2
  rcases hresult : result with reason | value
  · cases reason with
    | mistake cause place => exact .inr (.inl ⟨cause, place, rfl, hordinary _ hresult⟩)
    | breakdown cause => exact .inr (.inr ⟨cause, rfl⟩)
    | unfinished => exact absurd cutOff_unfinished (hended .unfinished hresult)
  · exact .inl ⟨value, rfl⟩

/-- Where a numeral is too long, nothing has been evaluated. -/
theorem store_of_longNumeral {digits : Nat}
    (hended : Ended (limits.run source process.globals process.store).1)
    (h : (limits.run source process.globals process.store).1 =
      .error (.breakdown (.longNumeral digits))) :
    (limits.run source process.globals process.store).2 = process.store := by
  cases hprogram : Expr.parse limits.depth source with
  | error reason => rw [run_of_parse_error hprogram]
  | ok program =>
      have hplace : Breakdown.longNumeral digits ≠ .noPlace := nofun
      rw [run_of_parse_ok hprogram] at hended h
      obtain ⟨last, -, callee, values, after, -, hbreaks⟩ :=
        (Moment.run_breaks_iff hplace hended).1 h
      rcases hbreaks.cause with hcause | hcause <;> cases hcause

/-- In whatever process a program is run by itself, if it is not cut off it comes to a value, to a
    mistake of one of the four categories, or to a breakdown.  It breaks down exactly if the
    first step that fails is one of those that break down; if that is a numeral, nothing has been
    evaluated.  No quotient and no comparison breaks down. -/
theorem host_errors (earlier : Limits) (operations : List Operation) (limits : Limits)
    (source : String) :
    let process := fresh.after earlier operations
    let out := limits.run source process.globals process.store
    (Ended out.1 →
      ((∃ value, out.1 = .ok value) ∨
        (∃ cause place, out.1 = .error (.mistake cause place) ∧ cause.category ≠ .general) ∨
        ∃ cause, out.1 = .error (.breakdown cause)) ∧
      (∀ cause, out.1 = .error (.breakdown cause) ↔ process.FirstFailure source cause) ∧
      (∀ cause, process.FirstFailure source cause →
        cause.name = if cause = .beyondDoubles then "OverflowError" else "ValueError") ∧
      ∀ digits, out.1 = .error (.breakdown (.longNumeral digits)) → out.2 = process.store) ∧
    ∀ function ∈ [Builtin.divide, .equal, .less, .greater], ∀ limit place arguments store cause,
      Ended (function.apply limit place arguments store).1 →
        (function.apply limit place arguments store).1 ≠ .error (.breakdown cause) := by
  intro process out
  have hplain : process.store.Plain := plain_after earlier operations
  constructor
  · intro hended
    refine ⟨run_cases hplain hended, run_breaks_iff hplain hended, ?_, ?_⟩
    · intro cause h
      exact h.name
    · intro digits h
      exact store_of_longNumeral hended h
  · intro function hfunction limit place arguments store cause hended hbreaks
    have hmem := ((Builtin.breaks_iff hended).1 hbreaks).mem
    simp only [List.mem_cons, List.not_mem_nil, or_false] at hfunction
    rcases hfunction with rfl | rfl | rfl | rfl <;> simp at hmem

/-- A text of too many digits breaks down before anything is evaluated. -/
theorem run_digits {digits : List Char} (hdigits : ∀ c ∈ digits, c.isDigit = true)
    (hlong : maxDigits < digits.length) (limits : Limits) (process : Process) :
    limits.run (String.ofList digits) process.globals process.store =
      (.error (.breakdown (.longNumeral digits.length)), process.store) := by
  have hspelled : (Grammar.Atom.number digits).Spelled := by
    refine ⟨?_, hdigits⟩
    rintro rfl
    exact absurd hlong (Nat.not_lt_zero _)
  have hlexemes := Grammar.lexemesFrom_atom 0 hspelled (x := []) nofun
  rw [List.append_nil] at hlexemes
  refine run_of_parse_error ?_ process
  rw [Reader.parse_eq, Reader.readAll, lexemes, String.toList_ofList,
    show digits = (Grammar.Atom.number digits).chars from rfl, hlexemes, Reader.read_long rfl hlong]
  rfl

theorem host_errors_long_numeral :
    let digits := List.replicate (maxDigits + 1) '1'
    Ended (Limits.run ⟨1, 0⟩ (String.ofList digits) fresh.globals fresh.store).1 ∧
      fresh.FirstFailure (String.ofList digits) (.longNumeral digits.length) := by
  have hfails : ∀ digits : List Char, (∀ c ∈ digits, c.isDigit = true) →
      maxDigits < digits.length →
      Ended (Limits.run ⟨1, 0⟩ (String.ofList digits) fresh.globals fresh.store).1 ∧
        fresh.FirstFailure (String.ofList digits) (.longNumeral digits.length) := by
    intro digits hdigits hlong
    have hrun := run_digits hdigits hlong ⟨1, 0⟩ fresh
    have hended : Ended (Limits.run ⟨1, 0⟩ (String.ofList digits) fresh.globals fresh.store).1 := by
      rw [hrun]
      exact ended_breakdown nofun
    have hiff := ((host_errors ⟨1, 0⟩ [] ⟨1, 0⟩ (String.ofList digits)).1 hended).2.1
    exact ⟨hended, (hiff _).1 (congrArg Prod.fst hrun)⟩
  refine hfails _ (fun c hc => ?_) ?_
  · rw [List.eq_of_mem_replicate hc]
    decide
  · rw [List.length_replicate]
    exact Nat.lt_succ_self maxDigits

end Process

end CallLang
