import TinyScript.Token.Basic

/-! # Operators

The operators of the language, how tightly they bind, and the tokens that stand for them. A token that
may follow an operand and continue the expression (an operator, the parenthesis of a call, the bracket of
an index) is a **continuation**; every other token binds at the lowest level and ends the expression.
-/

namespace TinyScript

/-- Operators before their operand. -/
inductive UnaryOp where
  | not
  | negate
  deriving DecidableEq

/-- Operators between their operands. -/
inductive BinaryOp where
  | add
  | sub
  | mul
  | div
  | less
  | greater
  | lessEqual
  | greaterEqual
  | equal
  | notEqual
  | and
  | or
  deriving DecidableEq

/-- Levels of binding, loosest first. -/
inductive Level where
  | lowest
  | disjunction
  | conjunction
  | equality
  | comparison
  | sum
  | product
  | unary
  | call
  deriving DecidableEq

/-- How a token continues an expression whose left part is complete. -/
inductive Continuation where
  | operator (op : BinaryOp)
  | call
  | index
  deriving DecidableEq

/-- The spelling of an operator. -/
def UnaryOp.symbol : UnaryOp → String
  | .not => "!"
  | .negate => "-"

namespace BinaryOp

/-- The spelling of an operator. -/
def symbol : BinaryOp → String
  | .add => "+"
  | .sub => "-"
  | .mul => "*"
  | .div => "/"
  | .less => "<"
  | .greater => ">"
  | .lessEqual => "<="
  | .greaterEqual => ">="
  | .equal => "=="
  | .notEqual => "!="
  | .and => "and"
  | .or => "or"

/-- The level of an operator. -/
def level : BinaryOp → Level
  | .or => .disjunction
  | .and => .conjunction
  | .equal | .notEqual => .equality
  | .less | .greater | .lessEqual | .greaterEqual => .comparison
  | .add | .sub => .sum
  | .mul | .div => .product

/-- The kind of token that stands for an operator. -/
def kind : BinaryOp → Token.Kind
  | .add => .plus
  | .sub => .minus
  | .mul => .asterisk
  | .div => .slash
  | .less => .less
  | .greater => .greater
  | .lessEqual => .lessEqual
  | .greaterEqual => .greaterEqual
  | .equal => .equal
  | .notEqual => .notEqual
  | .and => .andWord
  | .or => .orWord

end BinaryOp

namespace Level

/-- The place of a level, counted from the loosest. -/
def rank : Level → Nat
  | .lowest => 0
  | .disjunction => 1
  | .conjunction => 2
  | .equality => 3
  | .comparison => 4
  | .sum => 5
  | .product => 6
  | .unary => 7
  | .call => 8

instance : LT Level := ⟨fun a b => a.rank < b.rank⟩

instance (a b : Level) : Decidable (a < b) := inferInstanceAs (Decidable (a.rank < b.rank))

/-- The name of a level. -/
def name : Level → String
  | .lowest => "Lowest"
  | .disjunction => "Or"
  | .conjunction => "And"
  | .equality => "Equals"
  | .comparison => "LessGreater"
  | .sum => "Sum"
  | .product => "Product"
  | .unary => "Prefix"
  | .call => "Call"

end Level

namespace Continuation

/-- How a kind of token continues an expression, if it does. -/
def ofKind? : Token.Kind → Option Continuation
  | .plus => some (.operator .add)
  | .minus => some (.operator .sub)
  | .asterisk => some (.operator .mul)
  | .slash => some (.operator .div)
  | .less => some (.operator .less)
  | .greater => some (.operator .greater)
  | .lessEqual => some (.operator .lessEqual)
  | .greaterEqual => some (.operator .greaterEqual)
  | .equal => some (.operator .equal)
  | .notEqual => some (.operator .notEqual)
  | .andWord => some (.operator .and)
  | .orWord => some (.operator .or)
  | .leftParen => some .call
  | .leftBracket => some .index
  | _ => none

/-- The level of a continuation. -/
def level : Continuation → Level
  | .operator op => op.level
  | .call => .call
  | .index => .call

/-- An operator's token is read as that operator. -/
theorem ofKind?_kind (op : BinaryOp) : ofKind? op.kind = some (.operator op) := by
  cases op <;> rfl

end Continuation

/-- The level at which a kind of token continues an expression; `lowest` if it does not. -/
def Level.ofKind (kind : Token.Kind) : Level :=
  match Continuation.ofKind? kind with
  | some continuation => continuation.level
  | none => .lowest

end TinyScript
