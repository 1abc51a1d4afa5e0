import TinyScript.Proofs.Layout.Objects
import TinyScript.Proofs.Recoding.Operations

/-! # Operations on relined operands

Relining is a recoding, so operators, indexing, the builtin functions and the store give for relined operands what they
give for the operands, relined. From outside a store shows the kinds and the texts of what is bound in it, and so no
code (`Store.face_recoded`) and no lines (`Store.face_relined`).
-/

namespace TinyScript

variable {f : Nat → Nat}

/-- An operation on relined operands gives its result relined, or the same fault. -/
theorem UnaryOp.apply_relined (op : UnaryOp) (operand : Object) :
    op.apply (operand.relined f) = (op.apply operand).map (Produced.relined f) := by
  rw [Object.relined_eq_recoded, Produced.relined_eq_recoded]
  exact op.apply_recoded operand

/-- Operators do not look at code. -/
theorem BinaryOp.apply_relined (op : BinaryOp) (left right : Object) :
    op.apply (left.relined f) (right.relined f) = (op.apply left right).map (Produced.relined f) := by
  rw [Object.relined_eq_recoded, Produced.relined_eq_recoded]
  exact op.apply_recoded left right

/-- Nor does a key depend on lines. -/
theorem Object.keyOrFault_relined [ByteHash] (object : Object) :
    (object.relined f).keyOrFault = object.keyOrFault := by
  rw [Object.relined_eq_recoded, Object.keyOrFault_recoded]

/-- What is found under a key is relined. -/
theorem Object.index_relined [ByteHash] (collection position : Object) :
    (collection.relined f).index (position.relined f) =
      (collection.index position).map (Object.relined f) := by
  rw [Object.relined_eq_recoded]
  exact Object.index_recoded collection position

/-- Builtin functions do not look at code. -/
theorem Builtin.apply_relined (builtin : Builtin) (arguments : List Object) :
    builtin.apply (Object.relinedAll f arguments) = (builtin.apply arguments).map (Produced.relined f) := by
  rw [Object.relinedAll_eq_recodedAll, Produced.relined_eq_recoded]
  exact builtin.apply_recoded arguments

namespace Store

variable (store : Store)

/-- Names are found in the same scopes. -/
theorem get?_relined (scope : Scope) (name : String) :
    (store.relined f).get? scope name = (store.get? scope name).map (Object.relined f) := by
  rw [relined_eq_recoded, Object.relined_eq_recoded]
  exact store.get?_recoded scope name

theorem set_relined (scope : Scope) (name : String) (object : Object) :
    (store.relined f).set scope name (object.relined f) = (store.set scope name object).relined f := by
  rw [relined_eq_recoded, Object.relined_eq_recoded]
  exact store.set_recoded scope name object

theorem setAll_relined (scope : Scope) (bindings : List (String × Object)) :
    (store.relined f).setAll scope (Bindings.relined f bindings) =
      (store.setAll scope bindings).relined f := by
  rw [relined_eq_recoded, Bindings.relined_eq_recoded]
  exact store.setAll_recoded scope bindings

theorem enclose_relined (outer : Scope) :
    (store.relined f).enclose outer = ((store.enclose outer).1, (store.enclose outer).2.relined f) := by
  rw [relined_eq_recoded]
  exact store.enclose_recoded outer

end Store

/-! ## What is seen from outside -/

/-- What is seen of an object: its kind and its text. -/
def Object.face (object : Object) : Value.Kind × String := (object.kind, object.render)

/-- What is seen of the binding of a name in a scope. -/
def Store.face (store : Store) (id : Nat) (name : String) : Option (Value.Kind × String) :=
  (Assoc.find? name (store.locals id)).map Object.face

/-- No code is seen in an object. -/
theorem Object.face_recoded {r : Recoding} (object : Object) : (object.recoded r).face = object.face := by
  unfold Object.face
  rw [Object.kind_recoded, Object.render_recoded]

/-- No code is seen in a store. -/
theorem Store.face_recoded {r : Recoding} (store : Store) (id : Nat) (name : String) :
    (store.recoded r).face id name = store.face id name := by
  unfold Store.face
  rw [Store.locals_recoded]
  show (Assoc.find? name (Assoc.mapValues (Object.recoded r) (store.locals id))).map Object.face = _
  rw [Assoc.find?_mapValues, Option.map_map]
  exact congrArg (Option.map · _) (funext Object.face_recoded)

/-- No line is seen in a store. -/
theorem Store.face_relined (store : Store) (id : Nat) (name : String) :
    (store.relined f).face id name = store.face id name := by
  rw [Store.relined_eq_recoded, Store.face_recoded]

end TinyScript
