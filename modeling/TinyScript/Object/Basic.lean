import TinyScript.Object.Kind
import TinyScript.Syntax.Tree
import TinyScript.Text.Fingerprint

/-! # Objects

What a program computes with: values, each with an identity. An object is immutable, so sharing it is
seen only by asking whether two objects are the same one, which is what equality means for every kind
but numbers and strings. The two booleans and null are one object each; they are found under the
identities below `Object.firstFresh`, and every other object has a later one.

A function has the scope it was made in. A scope is its own number and the scopes around it; what names
are bound to in it is in the store.
-/

namespace TinyScript

/-- A chain of scopes, innermost first. -/
inductive Scope where
  | root (id : Nat)
  | enclosed (id : Nat) (outer : Scope)
  deriving DecidableEq

/-- The number of the innermost scope. -/
def Scope.id : Scope → Nat
  | .root id => id
  | .enclosed id _ => id

/-- The scope around a scope. -/
def Scope.outer? : Scope → Option Scope
  | .root _ => none
  | .enclosed _ outer => some outer

/-- What a hash finds entries by: the kind of a number, a boolean or a string, and its content. Of a string
that is only the fingerprint, so two strings with one fingerprint are one key. -/
inductive Key where
  | number (bits : Nat)
  | boolean (value : Bool)
  | string (fingerprint : UInt64)
  deriving DecidableEq

mutual

/-- A value with an identity. -/
structure Object where
  id : Nat
  value : Value

/-- What an object holds. A hash holds under each key the object that gave the key, and its value. -/
inductive Value where
  | number (value : Single)
  | boolean (value : Bool)
  | null
  | string (text : String)
  | array (elements : List Object)
  | hash (entries : List (Key × Object × Object))
  | function (parameters : List Ident) (body : Block) (scope : Scope)
  | builtin (builtin : Builtin)
  | error (failure : Failure)

end

namespace Value

/-- The kind of a value. -/
def kind : Value → Kind
  | .number _ => .number
  | .boolean _ => .boolean
  | .null => .null
  | .string _ => .string
  | .array _ => .array
  | .hash _ => .hash
  | .function .. => .function
  | .builtin _ => .builtin
  | .error _ => .error

/-- Only `false` and null count as false. -/
def truthy : Value → Bool
  | .boolean value => value
  | .null => false
  | _ => true

/-- The key that a value gives, if it gives one. The two zeros give one key, being equal; a not-a-number
equals nothing and gives none. -/
def key? [ByteHash] : Value → Option Key
  | .number .nan => none
  | .number value => some (.number (if value.equal .zero then 0 else value.bits))
  | .boolean value => some (.boolean value)
  | .string text => some (.string (Text.fingerprint text))
  | _ => none

end Value

/-- The number that a key is told apart by within its kind. -/
def Key.word : Key → Nat
  | .number bits => bits
  | .boolean value => if value then 1 else 0
  | .string fingerprint => fingerprint.toNat

/-- The kind of value that gives a key. -/
def Key.kind : Key → Value.Kind
  | .number _ => .number
  | .boolean _ => .boolean
  | .string _ => .string

namespace Object

/-- The kind of an object's value. -/
def kind (object : Object) : Value.Kind := object.value.kind

/-- Whether two objects are the same one. -/
def same (a b : Object) : Bool := a.id == b.id

/-- The object of a truth value. -/
def ofBool (value : Bool) : Object := ⟨if value then 1 else 0, .boolean value⟩

/-- The null object. -/
def null : Object := ⟨2, .null⟩

/-- The identity of the first object that is not shared by all programs. -/
def firstFresh : Nat := 3

instance : Inhabited Object := ⟨null⟩

end Object

end TinyScript
