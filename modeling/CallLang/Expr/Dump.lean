/-
  CallLang/Expr/Dump.lean
  =======================
  **Dumps of trees.**

  For debugging, a tree is written in three ways: `dump` writes calls as calls
  and atoms with their kind, `outline` writes one node a line, indented by depth,
  and `record` writes every node with the names of its fields.  None of them
  shows where a node stands, so equal programs have equal dumps.

  A literal is written as the plain notation of its value, `record` again.  The
  scope of a closure is described by a text that the caller supplies.
-/
import CallLang.Double.Decimal
import CallLang.Expr.Basic
import CallLang.Fault.Stop
import CallLang.Text.Quoted

namespace CallLang

/-- Texts in a row with a comma and a space between them. -/
def commaSeparated (texts : List String) : String :=
  ", ".intercalate texts

/-- Texts in brackets; a single one is followed by a comma. -/
def bracketed : List String → String
  | [text] => "(" ++ text ++ ",)"
  | texts => "(" ++ commaSeparated texts ++ ")"

mutual

/-- A tree with the names of all fields. -/
def Expr.record (scopeText : ScopeId → String) : Expr → String
  | .literal value _ => "Literal(value=" ++ value.record scopeText ++ ")"
  | .name text _ => "Identifier(name=" ++ Text.quoted text ++ ")"
  | .call operator arguments _ =>
    "Application(operator=" ++ operator.record scopeText ++ ", args=" ++
      bracketed (Expr.records scopeText arguments) ++ ")"
  | .hole => "Expression()"

def Expr.records (scopeText : ScopeId → String) : List Expr → List String
  | [] => []
  | expr :: rest => expr.record scopeText :: Expr.records scopeText rest

/-- A value with the names of all fields. -/
def Value.record (scopeText : ScopeId → String) : Value → String
  | .number (.int n) => Text.ofInt n
  | .number (.double x) => x.write
  | .string text => Text.quoted text
  | .boolean b => if b then "True" else "False"
  | .array items => "Array(elements=" ++ bracketed (Value.records scopeText items) ++ ")"
  | .closure _ parameters body scope =>
    "Function(params=" ++ bracketed (parameters.map Text.quoted) ++ ", body=" ++
      body.record scopeText ++ ", scope=" ++ scopeText scope ++ ")"
  | .builtin function _ => "<builtin " ++ function.name ++ ">"

def Value.records (scopeText : ScopeId → String) : List Value → List String
  | [] => []
  | value :: rest => value.record scopeText :: Value.records scopeText rest

end

/-! ### What can be written -/

/-- The first natural number that has too many digits to be written. -/
def tooLong : Nat := Nat.pow 10 maxDigits

mutual

/-- Whether every integer in a tree has few enough digits to be written. -/
def Expr.isWritable : Expr → Bool
  | .literal value _ => value.isWritable
  | .name .. => true
  | .call operator arguments _ => operator.isWritable && Expr.allWritable arguments
  | .hole => true

def Expr.allWritable : List Expr → Bool
  | [] => true
  | expr :: rest => expr.isWritable && Expr.allWritable rest

/-- Whether every integer in a value has few enough digits to be written. -/
def Value.isWritable : Value → Bool
  | .number (.int n) => n.natAbs < tooLong
  | .array items => Value.allWritable items
  | .closure _ _ body _ => body.isWritable
  | _ => true

def Value.allWritable : List Value → Bool
  | [] => true
  | value :: rest => value.isWritable && Value.allWritable rest

end

/-- A dump of a tree, unless the tree holds an integer that cannot be written. -/
def Expr.written (expr : Expr) (text : String) : Except Breakdown String :=
  if expr.isWritable then .ok text else .error .longInteger

/-! ### The other dumps -/

namespace Expr

mutual

/-- A tree with calls written as calls. -/
def dump (scopeText : ScopeId → String) : Expr → String
  | .literal value _ => "Literal(" ++ value.record scopeText ++ ")"
  | .name text _ => "Identifier(" ++ Text.quoted text ++ ")"
  | .call operator arguments _ =>
    operator.dump scopeText ++ "(" ++ commaSeparated (dumps scopeText arguments) ++ ")"
  | .hole => "Expression()"

def dumps (scopeText : ScopeId → String) : List Expr → List String
  | [] => []
  | expr :: rest => expr.dump scopeText :: dumps scopeText rest

end

/-- The blanks in front of a line of an outline; there are none above the margin. -/
def indentation (depth : Int) : String :=
  String.ofList (List.replicate (4 * depth.toNat) ' ')

mutual

/-- A tree with one node a line. -/
def outline (scopeText : ScopeId → String) (depth : Int) : Expr → String
  | .call operator arguments _ =>
    indentation depth ++ "Application(nodes=[\n" ++
      ",\n".intercalate (operator.outline scopeText (depth + 1) ::
        outlines scopeText (depth + 1) arguments) ++
      "\n" ++ indentation depth ++ "])"
  | .literal value span => indentation depth ++ (literal value span).dump scopeText
  | .name text span => indentation depth ++ (name text span).dump scopeText
  | .hole => indentation depth ++ hole.dump scopeText

def outlines (scopeText : ScopeId → String) (depth : Int) : List Expr → List String
  | [] => []
  | expr :: rest => expr.outline scopeText depth :: outlines scopeText depth rest

end

end Expr

end CallLang
