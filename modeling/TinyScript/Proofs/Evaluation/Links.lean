import TinyScript.Proofs.Evaluation.Production
import TinyScript.Proofs.Evaluation.Writes

/-! # Which scope is around which

A scope says which scopes are around it, and functions carry scopes, so one scope may be mentioned in many
places. A **table of links** says of every scope that was ever opened which scope is around it. Things that
respect one table agree on what is around what (`Scope.Linked.outer?_eq`), and what respects a table respects
every longer one. A store that binds a name or opens a scope respects a table, with a link for the new scope at its
end.
-/

namespace TinyScript

/-- The scope around each scope, by number. -/
abbrev Links := List (Option Scope)

/-- A scope whose chain is the one in the table. -/
def Scope.Linked (links : Links) : Scope → Prop
  | .root id => links[id]? = some none
  | .enclosed id outer => links[id]? = some (some outer) ∧ outer.Linked links

section Definitions

variable (links : Links)

mutual

/-- An object whose functions have scopes of the table. -/
def Object.Linked : Object → Prop
  | ⟨_, value⟩ => value.Linked

/-- A value whose functions have scopes of the table. -/
def Value.Linked : Value → Prop
  | .number _ => True
  | .boolean _ => True
  | .null => True
  | .string _ => True
  | .array elements => Object.LinkedAll elements
  | .hash entries => Object.LinkedEntries entries
  | .function _ _ scope => scope.Linked links
  | .builtin _ => True
  | .error _ => True

/-- Objects whose functions have scopes of the table. -/
def Object.LinkedAll : List Object → Prop
  | [] => True
  | object :: objects => object.Linked ∧ Object.LinkedAll objects

/-- Entries of a hash whose functions have scopes of the table. -/
def Object.LinkedEntries : List (Key × Object × Object) → Prop
  | [] => True
  | (_, name, value) :: entries => (name.Linked ∧ value.Linked) ∧ Object.LinkedEntries entries

end

/-- A store of the scopes of a table, which stand in scopes of the table and bind objects of the table. -/
structure Store.Linked (store : Store) : Prop where
  length_eq : links.length = store.bindings.size
  outer : ∀ outer, some outer ∈ links → outer.Linked links
  bound : ∀ id, ∀ binding ∈ store.locals id, binding.2.Linked links

end Definitions

variable {links more : Links}

/-- The identity of an object does not matter. -/
theorem Object.linked_iff {object : Object} : object.Linked links ↔ object.value.Linked links := by
  cases object
  rfl

/-- Objects are linked if each of them is. -/
theorem Object.linkedAll_iff {objects : List Object} :
    Object.LinkedAll links objects ↔ ∀ object ∈ objects, object.Linked links := by
  induction objects with
  | nil => simp [Object.LinkedAll]
  | cons object objects ih => simp [Object.LinkedAll, ih]

/-- Entries are linked if each name and each value is. -/
theorem Object.linkedEntries_iff {entries : List (Key × Object × Object)} :
    Object.LinkedEntries links entries ↔
      ∀ entry ∈ entries, entry.2.1.Linked links ∧ entry.2.2.Linked links := by
  induction entries with
  | nil => simp [Object.LinkedEntries]
  | cons entry entries ih =>
    obtain ⟨key, name, value⟩ := entry
    simp [Object.LinkedEntries, ih]

/-- A scope of a table has a number below the table's length. -/
theorem Scope.Linked.id_lt {scope : Scope} (h : scope.Linked links) : scope.id < links.length := by
  cases scope with
  | root id => exact (List.getElem?_eq_some_iff.mp h).1
  | enclosed id outer => exact (List.getElem?_eq_some_iff.mp h.1).1

/-- The scope around a scope is the one in the table. -/
theorem Scope.Linked.outer?_eq {scope : Scope} (h : scope.Linked links) :
    links[scope.id]? = some scope.outer? := by
  cases scope with
  | root id => exact h
  | enclosed id outer => exact h.1

/-- A number stands for one scope of the table at most. -/
theorem Scope.Linked.eq_of_id_eq {scope other : Scope} (h : scope.Linked links) (h' : other.Linked links)
    (he : scope.id = other.id) : scope = other := by
  have ho := h.outer?_eq
  rw [he, h'.outer?_eq] at ho
  cases scope with
  | root id =>
    cases other with
    | root id' => exact congrArg Scope.root he
    | enclosed id' outer' => cases ho
  | enclosed id outer =>
    cases other with
    | root id' => cases ho
    | enclosed id' outer' =>
      cases ho
      exact congrArg (Scope.enclosed · outer) he

/-- Every number of a scope of the store stands for a scope of the table. -/
theorem Store.Linked.exists_scope {store : Store} (h : store.Linked links) {id : Nat}
    (hid : id < store.bindings.size) : ∃ scope : Scope, scope.id = id ∧ scope.Linked links := by
  rw [← h.length_eq] at hid
  have he := List.getElem?_eq_getElem hid
  cases ho : links[id] with
  | none => exact ⟨.root id, rfl, he.trans (congrArg some ho)⟩
  | some outer =>
    have hm : some outer ∈ links := ho ▸ List.getElem_mem hid
    exact ⟨.enclosed id outer, rfl, he.trans (congrArg some ho), h.outer outer hm⟩

/-! ## Longer tables -/

/-- A longer table says the same of what a shorter one has. -/
theorem getElem?_mono {α : Type} {table longer : List α} {id : Nat} {value : α} (hm : table <+: longer)
    (h : table[id]? = some value) : longer[id]? = some value := by
  obtain ⟨hid, he⟩ := List.getElem?_eq_some_iff.mp h
  rw [List.prefix_iff_getElem?.mp hm id hid, he]

/-- A scope stays linked when scopes are added at the end. -/
theorem Scope.Linked.mono {scope : Scope} (h : scope.Linked links) (hm : links <+: more) :
    scope.Linked more := by
  induction scope with
  | root id => exact getElem?_mono hm h
  | enclosed id outer ih => exact ⟨getElem?_mono hm h.1, ih h.2⟩

mutual

/-- An object stays linked when scopes are added at the end, and so do those in it. -/
theorem Object.Linked.mono (hm : links <+: more) :
    ∀ {object : Object}, object.Linked links → object.Linked more
  | ⟨_, _⟩, h => Value.Linked.mono hm h

theorem Value.Linked.mono (hm : links <+: more) :
    ∀ {value : Value}, value.Linked links → value.Linked more
  | .number _, _ | .boolean _, _ | .null, _ | .string _, _ | .builtin _, _ | .error _, _ => trivial
  | .array _, h => Object.LinkedAll.mono hm h
  | .hash _, h => Object.LinkedEntries.mono hm h
  | .function _ _ _, h => Scope.Linked.mono h hm

theorem Object.LinkedAll.mono (hm : links <+: more) :
    ∀ {objects : List Object}, Object.LinkedAll links objects → Object.LinkedAll more objects
  | [], _ => trivial
  | _ :: _, h => ⟨Object.Linked.mono hm h.1, Object.LinkedAll.mono hm h.2⟩

theorem Object.LinkedEntries.mono (hm : links <+: more) : ∀ {entries : List (Key × Object × Object)},
    Object.LinkedEntries links entries → Object.LinkedEntries more entries
  | [], _ => trivial
  | (_, _, _) :: _, h =>
    ⟨⟨Object.Linked.mono hm h.1.1, Object.Linked.mono hm h.1.2⟩, Object.LinkedEntries.mono hm h.2⟩

end

/-! ## The store -/

theorem Object.linked_null : Object.null.Linked links := trivial

namespace Store.Linked

variable {store : Store} {scope : Scope}

/-- A name stands for an object that some scope binds. -/
theorem get? (h : store.Linked links) {name : String} {object : Object}
    (hg : store.get? scope name = some object) : object.Linked links := by
  obtain ⟨id, hm⟩ := Store.exists_mem_of_get? hg
  exact h.bound id _ hm

/-- Binding a linked object keeps a store linked. -/
theorem set (h : store.Linked links) (scope : Scope) (name : String) {object : Object} (ho : object.Linked links) :
    (store.set scope name object).Linked links := by
  refine ⟨h.length_eq.trans (store.size_set ..).symm, h.outer, ?_⟩
  intro id binding hm
  rcases Store.mem_locals_set hm with rfl | hm
  · exact ho
  · exact h.bound id binding hm

/-- A store with one more scope, in which nothing is bound, has a table with one more link. -/
theorem push (h : store.Linked links) {outer? : Option Scope}
    (ho : ∀ outer, some outer = outer? → outer.Linked links) (nextId : Nat) :
    (Store.mk (store.bindings.push []) nextId).Linked (links ++ [outer?]) := by
  have hm : links <+: links ++ [outer?] := List.prefix_append links _
  refine ⟨?_, fun outer ho' => ?_, fun id binding hb => ?_⟩
  · show (links ++ [outer?]).length = (store.bindings.push []).size
    rw [List.length_append, Array.size_push, h.length_eq, List.length_singleton]
  · obtain ho' | ho' := List.mem_append.mp ho'
    · exact (h.outer outer ho').mono hm
    · exact (ho outer (List.mem_singleton.mp ho')).mono hm
  · have hl : (Store.mk (store.bindings.push []) nextId).locals id = store.locals id :=
      Store.locals_enclose (.root 0)
    rw [hl] at hb
    exact (h.bound id binding hb).mono hm

/-- A new scope is linked at the end. -/
theorem getElem?_size (h : store.Linked links) (outer? : Option Scope) :
    (links ++ [outer?])[store.bindings.size]? = some outer? := by
  rw [← h.length_eq, List.getElem?_concat_length]

/-- The scope that is opened is the next one of the table. -/
theorem enclose (h : store.Linked links) {outer : Scope} (ho : outer.Linked links) :
    (store.enclose outer).2.Linked (links ++ [some outer]) ∧
      (store.enclose outer).1.Linked (links ++ [some outer]) := by
  refine ⟨h.push (fun inner hi => ?_) _, h.getElem?_size _, ho.mono (List.prefix_append links _)⟩
  cases hi
  exact ho

/-- A scope around which there is none is the next one of the table. -/
theorem openRoot (h : store.Linked links) :
    store.openRoot.2.Linked (links ++ [none]) ∧ store.openRoot.1.Linked (links ++ [none]) := by
  refine ⟨h.push (fun inner hi => ?_) _, h.getElem?_size _⟩
  cases hi

end Store.Linked

end TinyScript
