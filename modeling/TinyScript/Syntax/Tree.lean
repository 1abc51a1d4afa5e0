import TinyScript.Number.Single
import TinyScript.Syntax.Operator

/-! # Syntax trees

Expressions, statements and blocks. Each node has the line of the token that heads it: the operator of an
infix expression, the parenthesis of a call, the bracket of an index, and the first token of anything
else. Parentheses around an expression leave no node.
-/

namespace TinyScript

/-- A name where the program mentions it. -/
structure Ident where
  name : String
  line : Nat
  deriving DecidableEq, Inhabited

mutual

/-- What has a value. -/
inductive Expr where
  | ident (name : Ident)
  | number (value : Single) (line : Nat)
  | boolean (value : Bool) (line : Nat)
  | string (value : String) (line : Nat)
  | array (elements : List Expr) (line : Nat)
  | hash (entries : List (Expr × Expr)) (line : Nat)
  | unary (op : UnaryOp) (operand : Expr) (line : Nat)
  | binary (op : BinaryOp) (left right : Expr) (line : Nat)
  | conditional (condition : Expr) (consequence : Block) (alternative : Option Block) (line : Nat)
  | function (parameters : List Ident) (body : Block) (line : Nat)
  | call (callee : Expr) (arguments : List Expr) (line : Nat)
  | index (collection position : Expr) (line : Nat)

/-- What runs in order. A nested block runs in the scope around it; programs have it only when they are
not read from text, where a brace at the start of a statement opens a hash. -/
inductive Statement where
  | bind (name : Ident) (value : Expr) (line : Nat)
  | leave (value : Option Expr) (line : Nat)
  | expression (value : Expr) (line : Nat)
  | block (body : Block)

/-- Statements between braces, with the line of the opening brace. -/
inductive Block where
  | mk (statements : List Statement) (line : Nat)

end

/-- A program is its statements at the top. -/
abbrev Program := List Statement

namespace Block

/-- The statements of a block. -/
def statements : Block → List Statement
  | .mk statements _ => statements

/-- The line of a block's opening brace. -/
def line : Block → Nat
  | .mk _ line => line

end Block

/-- The line of an expression. -/
def Expr.line : Expr → Nat
  | .ident name => name.line
  | .number _ line => line
  | .boolean _ line => line
  | .string _ line => line
  | .array _ line => line
  | .hash _ line => line
  | .unary _ _ line => line
  | .binary _ _ _ line => line
  | .conditional _ _ _ line => line
  | .function _ _ line => line
  | .call _ _ line => line
  | .index _ _ line => line

/-- The line of a statement. -/
def Statement.line : Statement → Nat
  | .bind _ _ line => line
  | .leave _ line => line
  | .expression _ line => line
  | .block body => body.line

end TinyScript
