/-
  CallLang/Continuation.lean
  ==========================
  **Programs that go on.**

  The console has to know whether a program goes on in the next line before there
  is anything to be read.  So it counts the brackets of what has been typed,
  character by character, and passes over texts in quotation marks and comments.
-/

namespace CallLang

/-- Whether more brackets are open than closed at the end of a text, given how many
    are open before it.  Nothing goes on behind a quotation mark without a partner:
    the reader is to complain about it. -/
def leavesOpen (balance : Int) : List Char → Bool
  | [] => 0 < balance
  | c :: rest =>
    if c = '"' then
      if rest.contains '"' then leavesOpen balance (rest.dropWhile (· ≠ '"')).tail else false
    else if c = '#' then leavesOpen balance (rest.dropWhile (· ≠ '\n'))
    else if c = '(' then leavesOpen (balance + 1) rest
    else if c = ')' then leavesOpen (balance - 1) rest
    else leavesOpen balance rest
termination_by text => text.length
decreasing_by
  all_goals simp only [List.length_cons]
  · have := (List.dropWhile_sublist (l := rest) (fun x => decide (x ≠ '"'))).length_le
    rw [List.length_tail]
    omega
  · have := (List.dropWhile_sublist (l := rest) (fun x => decide (x ≠ '\n'))).length_le
    omega
  all_goals omega

/-- Whether a program goes on after a text. -/
def goesOn (text : String) : Bool :=
  leavesOpen 0 text.toList

end CallLang
