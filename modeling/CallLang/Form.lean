/-
  CallLang/Form.lean
  ==================
  **Special forms.**

  A call of one of five words controls what is evaluated and when, instead of
  applying a function to values.  The word alone decides: no binding of it is
  consulted, so a form cannot be redefined.
-/

namespace CallLang

/-- The forms, named for what they do with their operands. -/
inductive Form where
  | conditional
  | loop
  | sequence
  | define
  | function
deriving DecidableEq, Repr

namespace Form

def all : List Form :=
  [conditional, loop, sequence, define, function]

theorem mem_all (f : Form) : f ∈ all := by
  cases f <;> decide

def word : Form → String
  | conditional => "if"
  | loop => "while"
  | sequence => "do"
  | define => "define"
  | function => "fun"

def ofWord? (word : String) : Option Form :=
  all.find? fun f => f.word == word

end Form

end CallLang
