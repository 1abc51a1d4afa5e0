import TinyScript.Number.Arithmetic
import TinyScript.Object.Basic

/-! # Operations on objects

Operators on operands that have been evaluated. An operation gives an object that exists or a value for a
new one, or a fault; it sees no scope and no line. The rule for two operands is chosen by their kinds:
numbers are computed with and compared as numbers, strings are joined and compared by content, operands
of two kinds do not mix, and all else is compared by identity.
-/

namespace TinyScript

/-- The result of an operation. -/
inductive Produced where
  | existing (object : Object)
  | fresh (value : Value)

namespace Produced

/-- The object of a truth value. -/
def truth (value : Bool) : Produced := .existing (.ofBool value)

/-- A new number. -/
def number (value : Single) : Produced := .fresh (.number value)

end Produced

/-- Applies an operator to its operand. -/
def UnaryOp.apply (op : UnaryOp) (operand : Object) : Except Fault Produced :=
  match op, operand.value with
  | .not, value => .ok (.truth !value.truthy)
  | .negate, .number n => .ok (.number n.neg)
  | .negate, value => .error (.unknownUnary .negate value.kind)

namespace BinaryOp

/-- Applies an operator to two numbers. -/
def onNumbers (op : BinaryOp) (x y : Single) : Except Fault Produced :=
  match op with
  | .add => .ok (.number (x.add y))
  | .sub => .ok (.number (x.sub y))
  | .mul => .ok (.number (x.mul y))
  | .div => .ok (.number (x.div y))
  | .less => .ok (.truth (x.less y))
  | .greater => .ok (.truth (y.less x))
  | .lessEqual => .ok (.truth (x.lessEqual y))
  | .greaterEqual => .ok (.truth (y.lessEqual x))
  | .equal => .ok (.truth (x.equal y))
  | .notEqual => .ok (.truth !x.equal y)
  | .and | .or => .error (.unknownBinary .number op .number)

/-- Applies an operator to two strings. -/
def onStrings (op : BinaryOp) (s t : String) : Except Fault Produced :=
  match op with
  | .add => .ok (.fresh (.string (s ++ t)))
  | .equal => .ok (.truth (s == t))
  | .notEqual => .ok (.truth (s != t))
  | _ => .error (.unknownBinary .string op .string)

/-- Applies an operator to two objects by identity. `and` and `or` ask which of them is the object of
`true`. -/
def onIdentity (op : BinaryOp) (left right : Object) : Except Fault Produced :=
  let isTrue := (Object.ofBool true).same
  match op with
  | .equal => .ok (.truth (left.same right))
  | .notEqual => .ok (.truth !left.same right)
  | .and => .ok (.truth (isTrue left && isTrue right))
  | .or => .ok (.truth (isTrue left || isTrue right))
  | _ => .error (.unknownBinary left.kind op right.kind)

/-- Applies an operator to its operands. -/
def apply (op : BinaryOp) (left right : Object) : Except Fault Produced :=
  match left.value, right.value with
  | .number x, .number y => op.onNumbers x y
  | .string s, .string t => op.onStrings s t
  | _, _ =>
    if left.kind = right.kind then op.onIdentity left right
    else .error (.typeMismatch left.kind op right.kind)

end BinaryOp

end TinyScript
