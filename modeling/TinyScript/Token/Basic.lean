/-! # Tokens

A token has a kind, the text it was written with, and the line its first character stands on. Kinds with
a spelling of their own (operators, delimiters, words of the language) are listed with it once, in
`symbols` and `keywords`; both the scanner and the texts that name a kind read these tables.
-/

namespace TinyScript

/-- The kinds of tokens. -/
inductive Token.Kind where
  /-- A character that begins no token. -/
  | illegal
  | endOfInput
  | identifier
  | number
  | string
  /-- A string whose closing quote is missing. -/
  | openString
  | assign
  | plus
  | minus
  | bang
  | asterisk
  | slash
  | less
  | greater
  | equal
  | notEqual
  | lessEqual
  | greaterEqual
  | comma
  | semicolon
  | colon
  | leftParen
  | rightParen
  | leftBrace
  | rightBrace
  | leftBracket
  | rightBracket
  | fnWord
  | letWord
  | trueWord
  | falseWord
  | ifWord
  | elseWord
  | andWord
  | orWord
  | returnWord
  deriving DecidableEq, Inhabited

/-- A token of a source text. -/
structure Token where
  kind : Token.Kind
  literal : String
  line : Nat
  deriving DecidableEq, Inhabited

namespace Token

/-- The end of the input, on a line. -/
def atEnd (line : Nat) : Token := ⟨.endOfInput, "", line⟩

namespace Kind

/-- Operators and delimiters of one character. -/
def symbols : List (Char × Kind) := [
  ('=', .assign), ('+', .plus), ('-', .minus), ('!', .bang), ('*', .asterisk), ('/', .slash),
  ('<', .less), ('>', .greater), (',', .comma), (';', .semicolon), (':', .colon),
  ('(', .leftParen), (')', .rightParen), ('\x7b', .leftBrace), ('\x7d', .rightBrace),
  ('[', .leftBracket), (']', .rightBracket)]

/-- Operators of two characters, the second of which is always `=`. -/
def longSymbols : List (Char × Kind) := [
  ('=', .equal), ('!', .notEqual), ('<', .lessEqual), ('>', .greaterEqual)]

/-- The words of the language. -/
def keywords : List (String × Kind) := [
  ("fn", .fnWord), ("let", .letWord), ("true", .trueWord), ("false", .falseWord), ("if", .ifWord),
  ("else", .elseWord), ("and", .andWord), ("or", .orWord), ("return", .returnWord)]

/-- The kind of a word: its keyword's, or an identifier. -/
def ofWord (word : String) : Kind :=
  (keywords.lookup word).getD .identifier

/-- The name of a kind in messages: the spelling of an operator or delimiter, a word in capitals
otherwise. -/
def name : Kind → String
  | .illegal => "ILLEGAL"
  | .endOfInput => "EOF"
  | .identifier => "IDENT"
  | .number => "NUM"
  | .string => "STRING"
  | .openString => "UNTERMINATED STRING"
  | .assign => "="
  | .plus => "+"
  | .minus => "-"
  | .bang => "!"
  | .asterisk => "*"
  | .slash => "/"
  | .less => "<"
  | .greater => ">"
  | .equal => "=="
  | .notEqual => "!="
  | .lessEqual => "<="
  | .greaterEqual => ">="
  | .comma => ","
  | .semicolon => ";"
  | .colon => ":"
  | .leftParen => "("
  | .rightParen => ")"
  | .leftBrace => "\x7b"
  | .rightBrace => "\x7d"
  | .leftBracket => "["
  | .rightBracket => "]"
  | .fnWord => "FUNCTION"
  | .letWord => "LET"
  | .trueWord => "TRUE"
  | .falseWord => "FALSE"
  | .ifWord => "IF"
  | .elseWord => "ELSE"
  | .andWord => "AND"
  | .orWord => "OR"
  | .returnWord => "RETURN"

end Kind

end Token

end TinyScript
