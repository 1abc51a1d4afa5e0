import TinyScript.Evaluation.Operation
import TinyScript.Object.Store

/-! # Completions

An evaluation changes the store and completes in one of three ways: with what it was to give, with a
`return` on its way to the nearest call, or with a failure. The two last stop everything up to that
boundary. Evaluations call each other and carry a bound on the depth of calls; an evaluation that meets it
has no completion.
-/

namespace TinyScript

/-- How an evaluation completes. -/
inductive Completion (α : Type) where
  | normal (value : α)
  | returned (value : Object)
  | failed (failure : Failure)

/-- A computation on the store; `none` where its bound is met. -/
def Evaluation (α : Type) := Store → Option (Completion α × Store)

namespace Evaluation

variable {α β : Type}

/-- Gives a value and leaves the store. -/
@[always_inline, inline]
protected def pure (value : α) : Evaluation α := fun store => some (.normal value, store)

/-- Evaluates, and goes on with the value; anything but a normal completion is passed on at once. -/
@[always_inline, inline]
protected def bind (first : Evaluation α) (next : α → Evaluation β) : Evaluation β := fun store =>
  match first store with
  | some (.normal value, after) => next value after
  | some (.returned value, after) => some (.returned value, after)
  | some (.failed failure, after) => some (.failed failure, after)
  | none => none

instance : Monad Evaluation where
  pure := Evaluation.pure
  bind := Evaluation.bind

/-- The evaluation that meets its bound. -/
def exhausted : Evaluation α := fun _ => none

/-- Completes with a failure. -/
def fail (fault : Fault) (line : Nat) : Evaluation α := fun store =>
  some (.failed ⟨fault, line⟩, store)

/-- Completes with a `return`. -/
def leave (value : Object) : Evaluation α := fun store => some (.returned value, store)

/-- Gives a new object. -/
def allocate (value : Value) : Evaluation Object := fun store =>
  let (object, after) := store.allocate value
  some (.normal object, after)

/-- The object a name is bound to, as seen from a scope. -/
def lookup (scope : Scope) (name : String) : Evaluation (Option Object) := fun store =>
  some (.normal (store.get? scope name), store)

/-- Binds a name in a scope. -/
def assign (scope : Scope) (name : String) (object : Object) : Evaluation Unit := fun store =>
  some (.normal (), store.set scope name object)

/-- Opens a scope within another, with bindings of its own. -/
def enclose (outer : Scope) (bindings : List (String × Object)) : Evaluation Scope := fun store =>
  let (scope, after) := store.enclose outer
  some (.normal scope, after.setAll scope bindings)

/-- The result of something that can be at fault, on a line. -/
def ofExcept (line : Nat) : Except Fault α → Evaluation α
  | .ok value => return value
  | .error fault => fail fault line

/-- The object that an operation gives, on a line. -/
def produce (line : Nat) (result : Except Fault Produced) : Evaluation Object := do
  match ← ofExcept line result with
  | .existing object => return object
  | .fresh value => allocate value

/-- Ends the way of a `return`: its value is what the evaluation gives. -/
def catchReturn (evaluation : Evaluation Object) : Evaluation Object := fun store =>
  match evaluation store with
  | some (.returned value, after) => some (.normal value, after)
  | other => other

end Evaluation

end TinyScript
