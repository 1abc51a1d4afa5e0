import TinyScript.Number.Shortest
import TinyScript.Syntax.Tree
import TinyScript.Text.Join

/-! # Text of syntax trees

Trees are written back with every operator in parentheses of its own, so the text shows how a program
was grouped. Calls and functions are not put in parentheses; the statements of a block run together.
-/

namespace TinyScript

mutual

/-- The text of an expression. -/
def Expr.render : Expr → String
  | .ident name => name.name
  | .number value _ => value.render
  | .boolean value _ => if value then "true" else "false"
  | .string value _ => "\"" ++ value ++ "\""
  | .array elements _ => "[" ++ Text.commaSeparated (Expr.renderAll elements) ++ "]"
  | .hash entries _ => "\x7b" ++ Text.commaSeparated (Expr.renderEntries entries) ++ "\x7d"
  | .unary op operand _ => "(" ++ op.symbol ++ operand.render ++ ")"
  | .binary op left right _ => "(" ++ left.render ++ " " ++ op.symbol ++ " " ++ right.render ++ ")"
  | .conditional condition consequence alternative _ =>
    "if" ++ condition.render ++ " " ++ consequence.render ++ Expr.renderAlternative alternative
  | .function parameters body _ =>
    "fn(" ++ Text.commaSeparated (parameters.map Ident.name) ++ ") \x7b " ++ body.render ++ " \x7d"
  | .call callee arguments _ =>
    callee.render ++ "(" ++ Text.commaSeparated (Expr.renderAll arguments) ++ ")"
  | .index collection position _ => "(" ++ collection.render ++ "[" ++ position.render ++ "])"

/-- The texts of expressions. -/
def Expr.renderAll : List Expr → List String
  | [] => []
  | e :: es => e.render :: Expr.renderAll es

/-- The texts of the entries of a hash. -/
def Expr.renderEntries : List (Expr × Expr) → List String
  | [] => []
  | (key, value) :: entries => (key.render ++ ": " ++ value.render) :: Expr.renderEntries entries

/-- The text of what runs when a condition fails. -/
def Expr.renderAlternative : Option Block → String
  | none => ""
  | some body => "else " ++ body.render

/-- The text of a statement. -/
def Statement.render : Statement → String
  | .bind name value _ => "let " ++ name.name ++ " = " ++ value.render ++ ";"
  | .leave none _ => "return;"
  | .leave (some value) _ => "return " ++ value.render ++ ";"
  | .expression value _ => value.render
  | .block body => body.render

/-- The texts of statements. -/
def Statement.renderAll : List Statement → List String
  | [] => []
  | s :: ss => s.render :: Statement.renderAll ss

/-- The text of a block: its statements, run together. -/
def Block.render : Block → String
  | .mk statements _ => Text.concatenated (Statement.renderAll statements)

end

/-- The text of a program: its statements, run together. -/
def Program.render (program : Program) : String :=
  Text.concatenated (Statement.renderAll program)

end TinyScript
