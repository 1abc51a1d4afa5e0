import TinyScript.Evaluation.Collection
import TinyScript.Evaluation.Completion
import TinyScript.Object.Render

/-! # Objects with other code

Of all objects only functions hold code. A **recoding** writes the code of functions in another way: it changes their
parameters and their bodies, but neither the names of the parameters nor any text. Applied to an object it changes all
the functions that the object holds, and in a store those of all that is bound there. It changes no kind, no identity
and no text of an object (`Object.render_recoded`).
-/

namespace TinyScript

namespace Assoc

variable {κ ν μ : Type}

/-- The pairs with every value changed. -/
def mapValues (g : ν → μ) (pairs : List (κ × ν)) : List (κ × μ) := pairs.map fun pair => (pair.1, g pair.2)

variable [DecidableEq κ]

theorem find?_mapValues (g : ν → μ) (key : κ) (pairs : List (κ × ν)) :
    find? key (mapValues g pairs) = (find? key pairs).map g := by
  induction pairs with
  | nil => rfl
  | cons pair pairs ih =>
    obtain ⟨k, v⟩ := pair
    by_cases h : k = key
    · simp only [mapValues, List.map_cons, find?, if_pos h, Option.map_some]
    · simp only [mapValues, List.map_cons, find?, if_neg h]
      exact ih

theorem insert_mapValues (g : ν → μ) (key : κ) (value : ν) (pairs : List (κ × ν)) :
    insert key (g value) (mapValues g pairs) = mapValues g (insert key value pairs) := by
  induction pairs with
  | nil => rfl
  | cons pair pairs ih =>
    obtain ⟨k, v⟩ := pair
    by_cases h : k = key
    · simp only [mapValues, List.map_cons, insert, if_pos h]
    · simp only [mapValues, List.map_cons, insert, if_neg h]
      exact congrArg _ ih

end Assoc

/-- Another way to write parameters and bodies that keeps names and texts. -/
structure Recoding where
  parameters : List Ident → List Ident
  body : Block → Block
  names_parameters : ∀ names, (parameters names).map Ident.name = names.map Ident.name
  render_body : ∀ block, (body block).render = block.render

section Definitions

variable (r : Recoding)

mutual

/-- An object with other code. -/
def Object.recoded : Object → Object
  | ⟨id, value⟩ => ⟨id, value.recoded⟩

/-- A value with other code. -/
def Value.recoded : Value → Value
  | .number value => .number value
  | .boolean value => .boolean value
  | .null => .null
  | .string text => .string text
  | .array elements => .array (Object.recodedAll elements)
  | .hash entries => .hash (Object.recodedEntries entries)
  | .function parameters body scope => .function (r.parameters parameters) (r.body body) scope
  | .builtin builtin => .builtin builtin
  | .error failure => .error failure

/-- Objects with other code. -/
def Object.recodedAll : List Object → List Object
  | [] => []
  | object :: objects => object.recoded :: Object.recodedAll objects

/-- Entries of a hash with other code. -/
def Object.recodedEntries : List (Key × Object × Object) → List (Key × Object × Object)
  | [] => []
  | (key, name, value) :: entries => (key, name.recoded, value.recoded) :: Object.recodedEntries entries

end

/-- Bindings with other code. -/
def Bindings.recoded (bindings : Bindings) : Bindings := Assoc.mapValues (Object.recoded r) bindings

/-- A store with other code. -/
def Store.recoded (store : Store) : Store := ⟨store.bindings.map (Bindings.recoded r), store.nextId⟩

/-- The result of an operation, with other code. -/
def Produced.recoded : Produced → Produced
  | .existing object => .existing (object.recoded r)
  | .fresh value => .fresh (value.recoded r)

end Definitions

variable {r : Recoding}

theorem Object.recodedAll_eq_map (objects : List Object) :
    Object.recodedAll r objects = objects.map (Object.recoded r) := by
  induction objects with
  | nil => rfl
  | cons object objects ih => exact congrArg (object.recoded r :: ·) ih

theorem Object.recodedEntries_eq_map (entries : List (Key × Object × Object)) :
    Object.recodedEntries r entries =
      Assoc.mapValues (Prod.map (Object.recoded r) (Object.recoded r)) entries := by
  induction entries with
  | nil => rfl
  | cons entry entries ih => exact congrArg (_ :: ·) ih

/-! ## What recoding keeps -/

theorem Value.kind_recoded (value : Value) : (value.recoded r).kind = value.kind := by
  cases value <;> rfl

theorem Value.truthy_recoded (value : Value) : (value.recoded r).truthy = value.truthy := by
  cases value <;> rfl

theorem Value.key?_recoded [ByteHash] (value : Value) : (value.recoded r).key? = value.key? := by
  cases value <;> rfl

theorem Object.value_recoded (object : Object) : (object.recoded r).value = object.value.recoded r := by
  cases object
  rfl

theorem Object.id_recoded (object : Object) : (object.recoded r).id = object.id := by
  cases object
  rfl

theorem Object.kind_recoded (object : Object) : (object.recoded r).kind = object.kind := by
  unfold Object.kind
  rw [Object.value_recoded, Value.kind_recoded]

theorem Object.same_recoded (a b : Object) : (a.recoded r).same (b.recoded r) = a.same b := by
  unfold Object.same
  rw [Object.id_recoded, Object.id_recoded]

mutual

/-- **The text of an object does not depend on how the functions it holds are written.** -/
theorem Object.render_recoded : ∀ object : Object, (object.recoded r).render = object.render
  | ⟨_, value⟩ => value.render_recoded

theorem Value.render_recoded : ∀ value : Value, (value.recoded r).render = value.render
  | .number _ | .boolean _ | .null | .string _ | .builtin _ | .error _ => rfl
  | .array elements =>
    congrArg (fun texts => "[" ++ Text.commaSeparated texts ++ "]") (Object.renderAll_recoded elements)
  | .hash entries => congrArg Text.hash (Object.renderEntries_recoded entries)
  | .function parameters body _ => by
    -- stated by unfolding, as the equations of `Value.render` take long to derive
    show "fn(" ++ Text.commaSeparated ((r.parameters parameters).map Ident.name) ++ ") \x7b "
      ++ (r.body body).render ++ " \x7d" = _
    rw [r.names_parameters, r.render_body]
    rfl

theorem Object.renderAll_recoded : ∀ objects : List Object,
    Object.renderAll (Object.recodedAll r objects) = Object.renderAll objects
  | [] => rfl
  | object :: objects => by
    show (object.recoded r).render :: Object.renderAll (Object.recodedAll r objects) = _
    rw [object.render_recoded, Object.renderAll_recoded objects]
    rfl

theorem Object.renderEntries_recoded : ∀ entries : List (Key × Object × Object),
    Object.renderEntries (Object.recodedEntries r entries) = Object.renderEntries entries
  | [] => rfl
  | (_, name, value) :: entries => by
    show ((name.recoded r).render, (value.recoded r).render) ::
      Object.renderEntries (Object.recodedEntries r entries) = _
    rw [name.render_recoded, value.render_recoded, Object.renderEntries_recoded entries]
    rfl

end

end TinyScript
