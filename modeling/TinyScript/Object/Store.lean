import TinyScript.Assoc
import TinyScript.Object.Basic

/-! # The store

What the names of each scope are bound to, and the identity that the next object takes. Reading looks
through a scope and the scopes around it, innermost first; writing binds in one scope and no other
(`locals_set_self`, `locals_set_of_ne`), and opening a scope changes nothing in those there are
(`locals_enclose`).
-/

namespace TinyScript

/-- What the names of one scope are bound to. -/
abbrev Bindings := List (String × Object)

/-- The bindings of all scopes, by number, and the identity of the next object. -/
structure Store where
  bindings : Array Bindings
  nextId : Nat

namespace Store

/-- No scopes, and only the objects that all programs share. -/
def empty : Store := ⟨#[], Object.firstFresh⟩

instance : Inhabited Store := ⟨empty⟩

/-- The bindings of the scope of a number. -/
def locals (store : Store) (id : Nat) : Bindings :=
  (store.bindings[id]?).getD []

/-- A new scope around which there is none. -/
def openRoot (store : Store) : Scope × Store :=
  (.root store.bindings.size, ⟨store.bindings.push [], store.nextId⟩)

/-- A new scope within another. -/
def enclose (store : Store) (outer : Scope) : Scope × Store :=
  (.enclosed store.bindings.size outer, ⟨store.bindings.push [], store.nextId⟩)

/-- The object a name is bound to in a scope or, failing that, in the scopes around it. -/
def get? (store : Store) : Scope → String → Option Object
  | .root id, name => Assoc.find? name (store.locals id)
  | .enclosed id outer, name =>
    match Assoc.find? name (store.locals id) with
    | some object => some object
    | none => store.get? outer name

/-- Whether a name is bound in a scope itself. -/
def hasLocal (store : Store) (scope : Scope) (name : String) : Bool :=
  (Assoc.find? name (store.locals scope.id)).isSome

/-- Binds a name in a scope itself. -/
def set (store : Store) (scope : Scope) (name : String) (object : Object) : Store :=
  ⟨store.bindings.modify scope.id (Assoc.insert name object), store.nextId⟩

/-- Binds names to objects in a scope, in order. -/
def setAll (store : Store) (scope : Scope) : List (String × Object) → Store
  | [] => store
  | (name, object) :: rest => (store.set scope name object).setAll scope rest

/-- A new object with a value. -/
def allocate (store : Store) (value : Value) : Object × Store :=
  (⟨store.nextId, value⟩, ⟨store.bindings, store.nextId + 1⟩)

variable {store : Store} {scope : Scope} {id : Nat} {name : String} {object : Object}

/-- The scope that is written to gains a binding. -/
theorem locals_set_self (h : scope.id < store.bindings.size) :
    (store.set scope name object).locals scope.id =
      Assoc.insert name object (store.locals scope.id) := by
  simp only [locals, set, Array.getElem?_modify, if_true, Array.getElem?_eq_getElem h,
    Option.map_some, Option.getD_some]

/-- No other scope is changed by writing. -/
theorem locals_set_of_ne (h : id ≠ scope.id) :
    (store.set scope name object).locals id = store.locals id := by
  simp only [locals, set, Array.getElem?_modify, if_neg (Ne.symm h)]

/-- Nothing is bound in a new scope, and all else is as it was. -/
theorem locals_enclose (outer : Scope) : (store.enclose outer).2.locals id = store.locals id := by
  simp only [locals, enclose, Array.getElem?_push]
  split
  · next h => rw [h, Array.getElem?_eq_none (Nat.le_refl _), Option.getD_some, Option.getD_none]
  · rfl

end Store

end TinyScript
