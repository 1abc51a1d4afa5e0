import TinyScript.Assoc
import TinyScript.Evaluation.Operation
import TinyScript.Number.Index
import TinyScript.Number.Rounding

/-! # Arrays and hashes

Indexing, and the builtin functions on arrays and strings. Arrays and hashes are never changed: `rest`
and `push` give new arrays that hold the same objects. What is not there is null.
-/

namespace TinyScript

/-- The key that an object gives; an object that gives none is at fault. -/
def Object.keyOrFault [ByteHash] (object : Object) : Except Fault Key :=
  match object.value.key? with
  | some key => .ok key
  | none => .error (.unusableKey object.kind)

/-- The element of an array that a number names, or null. -/
def Object.elementAt (elements : List Object) (position : Single) : Object :=
  (position.toIndex?.bind (elements[·]?)).getD .null

/-- The value that a hash holds under a key, or null. -/
def Object.entryAt (entries : List (Key × Object × Object)) (key : Key) : Object :=
  ((Assoc.find? key entries).map Prod.snd).getD .null

/-- What an array holds at a number, or a hash under any object that gives a key. -/
def Object.index [ByteHash] (collection position : Object) : Except Fault Object :=
  match collection.value, position.value with
  | .array elements, .number n => .ok (Object.elementAt elements n)
  | .hash entries, _ => position.keyOrFault.map (Object.entryAt entries)
  | _, _ => .error (.notIndexable collection.kind)

namespace Builtin

/-- Applies a builtin function to the elements of an array, and to what follows it. -/
def onArray (builtin : Builtin) (elements : List Object) (others : List Object) : Produced :=
  match builtin with
  | .len => .number (.ofNat elements.length)
  | .first => .existing (elements.head?.getD .null)
  | .last => .existing (elements.getLast?.getD .null)
  | .rest =>
    match elements with
    | [] => .existing .null
    | _ :: tail => .fresh (.array tail)
  | .push => .fresh (.array (elements ++ others))

/-- Applies a builtin function to its first argument and to what follows it. The length of a string is
counted in bytes of its UTF-8 form. -/
def onFirst (builtin : Builtin) (subject : Object) (others : List Object) : Except Fault Produced :=
  match builtin, subject.value with
  | builtin, .array elements => .ok (builtin.onArray elements others)
  | .len, .string text => .ok (.number (.ofNat text.utf8ByteSize))
  | .len, value => .error (.unsupportedArgument .len value.kind)
  | builtin, value => .error (.arrayExpected builtin value.kind)

/-- Applies a builtin function to its arguments; their number is looked at first. -/
def apply (builtin : Builtin) (arguments : List Object) : Except Fault Produced :=
  match arguments with
  | subject :: others =>
    if arguments.length = builtin.arity then builtin.onFirst subject others
    else .error (.argumentCount builtin.arity arguments.length)
  | [] => .error (.argumentCount builtin.arity 0)

end Builtin

end TinyScript
