import TinyScript.Token.Basic
import TinyScript.Text.Join

/-! # Syntax errors

What can be wrong with a text, as causes. The wording is in `detail` alone.
-/

namespace TinyScript

/-- A mistake in the text of a program, with the line it was met on. -/
inductive SyntaxError where
  /-- The rules require one kind of token next and found another. -/
  | unexpected (expected found : Token.Kind) (line : Nat)
  /-- No expression begins with this kind of token. -/
  | noOperand (found : Token.Kind) (line : Nat)
  /-- The text of a number is no finite number. -/
  | invalidNumber (literal : String) (line : Nat)
  | unterminatedString (line : Nat)
  | illegalToken (literal : String) (line : Nat)
  deriving DecidableEq

namespace SyntaxError

/-- The line an error was met on. -/
def line : SyntaxError → Nat
  | .unexpected _ _ line => line
  | .noOperand _ line => line
  | .invalidNumber _ line => line
  | .unterminatedString line => line
  | .illegalToken _ line => line

/-- What is wrong, in words. -/
def detail : SyntaxError → String
  | .unexpected expected found _ =>
    "expected next token to be " ++ expected.name ++ ", got " ++ found.name ++ " instead"
  | .noOperand found _ => "no prefix parse function for " ++ found.name ++ " found"
  | .invalidNumber literal _ => "could not parse \"" ++ literal ++ "\" as number"
  | .unterminatedString _ => "unterminated string"
  | .illegalToken literal _ => "illegal token '" ++ literal ++ "'"

/-- The line and what is wrong. -/
def message (error : SyntaxError) : String :=
  Text.onLine error.line error.detail

/-- Messages, one a line, each after a tab. -/
def report : List SyntaxError → String
  | [] => ""
  | [error] => "\t" ++ error.message
  | error :: errors => "\t" ++ error.message ++ "\n" ++ report errors

end SyntaxError

end TinyScript
