import TinyScript.Syntax.Operator
import TinyScript.Text.Join

/-! # Kinds, builtin functions and failures

The kinds of values, the builtin functions, and what can go wrong while a program runs, as causes. The
wording of failures is in `Fault.detail` alone.
-/

namespace TinyScript

/-- The kinds of values. -/
inductive Value.Kind where
  | number
  | boolean
  | null
  | string
  | array
  | hash
  | function
  | builtin
  | error
  deriving DecidableEq, Inhabited

/-- The name of a kind in messages. -/
def Value.Kind.name : Value.Kind → String
  | .number => "NUMBER"
  | .boolean => "BOOLEAN"
  | .null => "NULL"
  | .string => "STRING"
  | .array => "ARRAY"
  | .hash => "HASH"
  | .function => "FUNCTION"
  | .builtin => "BUILTIN"
  | .error => "ERROR"

/-- The functions that every program can name. -/
inductive Builtin where
  | len
  | first
  | last
  | rest
  | push
  deriving DecidableEq

namespace Builtin

/-- All builtin functions. -/
def all : List Builtin := [.len, .first, .last, .rest, .push]

/-- The name of a builtin function in programs. -/
def name : Builtin → String
  | .len => "len"
  | .first => "first"
  | .last => "last"
  | .rest => "rest"
  | .push => "push"

/-- The builtin function of a name. -/
def ofName? (name : String) : Option Builtin :=
  all.find? fun builtin => builtin.name = name

/-- A builtin function is found by its name. -/
theorem ofName?_name (builtin : Builtin) : ofName? builtin.name = some builtin := by
  cases builtin <;> decide

/-- How many arguments a builtin function takes. -/
def arity : Builtin → Nat
  | .push => 2
  | _ => 1

end Builtin

/-- What can go wrong while a program runs. -/
inductive Fault where
  /-- The operands are of two kinds. -/
  | typeMismatch (left : Value.Kind) (op : BinaryOp) (right : Value.Kind)
  | unknownUnary (op : UnaryOp) (operand : Value.Kind)
  | unknownBinary (left : Value.Kind) (op : BinaryOp) (right : Value.Kind)
  /-- No scope and no builtin function has the name. -/
  | unboundName (name : String)
  | notAFunction (kind : Value.Kind)
  | unusableKey (kind : Value.Kind)
  | notIndexable (kind : Value.Kind)
  | argumentCount (expected got : Nat)
  | unsupportedArgument (builtin : Builtin) (kind : Value.Kind)
  /-- The first argument has to be an array. -/
  | arrayExpected (builtin : Builtin) (kind : Value.Kind)
  deriving DecidableEq

/-- What went wrong, in words. An argument is called the first one only where there are more. -/
def Fault.detail : Fault → String
  | .typeMismatch left op right =>
    "type mismatch: " ++ left.name ++ " " ++ op.symbol ++ " " ++ right.name
  | .unknownUnary op operand => "unknown operator: " ++ op.symbol ++ operand.name
  | .unknownBinary left op right =>
    "unknown operator: " ++ left.name ++ " " ++ op.symbol ++ " " ++ right.name
  | .unboundName name => "identifier not found: " ++ name
  | .notAFunction kind => "not a function: " ++ kind.name
  | .unusableKey kind => "unusable as hash key: " ++ kind.name
  | .notIndexable kind => "index operator not supported: " ++ kind.name
  | .argumentCount expected got =>
    "wrong number of arguments. expected=" ++ Nat.repr expected ++ ", got=" ++ Nat.repr got
  | .unsupportedArgument builtin kind =>
    "argument to '" ++ builtin.name ++ "' not supported. got=" ++ kind.name
  | .arrayExpected builtin kind =>
    (if builtin.arity = 1 then "" else "first ") ++ "argument to '" ++ builtin.name
      ++ "' must be ARRAY, got=" ++ kind.name

/-- A fault with the line of the node that was being evaluated. -/
structure Failure where
  fault : Fault
  line : Nat
  deriving DecidableEq

/-- The line and what went wrong. -/
def Failure.message (failure : Failure) : String :=
  Text.onLine failure.line failure.fault.detail

end TinyScript
