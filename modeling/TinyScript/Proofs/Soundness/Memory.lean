import TinyScript.Proofs.Evaluation.Links
import TinyScript.Proofs.Session.Keeping

/-! # What identities stand for

Objects are told apart by their identities, and an object is written down here with all that it holds. That makes sense
only if an identity never stands for two things. A **memory** says what each identity stands for (`Memory`); objects
are **of** it if they have what it says, and then so has all that they hold. A program that goes on adds to the memory
and changes nothing in it (`Memory.regime`), so whatever a host asks of a session, all that can be got at is of one
memory and **an identity stands for one object** (`Session.Gave.eq_of_id_eq`).
-/

namespace TinyScript

/-- The objects that a value holds. -/
def Value.held : Value → List Object
  | .array elements => elements
  | .hash entries => entries.flatMap fun entry => [entry.2.1, entry.2.2]
  | _ => []

/-- What the identities that have been given out stand for. -/
structure Memory where
  values : List Value
  shared : [.boolean false, .boolean true, .null] <+: values
  closed : ∀ value ∈ values, ∀ object ∈ value.held, values[object.id]? = some object.value

/-- An object that has the value that its identity stands for. -/
def Object.Of (memory : Memory) (object : Object) : Prop :=
  memory.values[object.id]? = some object.value

variable {memory later : Memory} {object a b : Object}

/-- **An identity stands for one object.** -/
theorem Object.Of.eq_of_id_eq (ha : a.Of memory) (hb : b.Of memory) (h : a.id = b.id) : a = b := by
  obtain ⟨id, value⟩ := a
  obtain ⟨other, value'⟩ := b
  obtain rfl : id = other := h
  obtain rfl : value = value' := Option.some.inj (ha.symm.trans hb)
  rfl

/-- What was of a memory is of one that it grows to. -/
theorem Object.Of.mono (h : object.Of memory) (hl : memory.values <+: later.values) : object.Of later :=
  getElem?_mono hl h

/-- What an object of a memory holds is of it too. -/
theorem Object.Of.held (h : object.Of memory) {member : Object} (hm : member ∈ object.value.held) :
    member.Of memory :=
  memory.closed _ (List.mem_of_getElem? h) member hm

/-- A hash holds the names and the values of its entries. -/
theorem Value.mem_held_hash {entries : List (Key × Object × Object)} :
    object ∈ (Value.hash entries).held ↔ ∃ entry ∈ entries, object = entry.2.1 ∨ object = entry.2.2 := by
  simp [Value.held, List.mem_flatMap]

namespace Memory

/-- The memory of a program that has not begun. -/
def empty : Memory where
  values := [.boolean false, .boolean true, .null]
  shared := List.prefix_rfl
  closed := by simp [Value.held]

theorem of_ofBool (memory : Memory) (truth : Bool) : (Object.ofBool truth).Of memory := by
  refine getElem?_mono memory.shared ?_
  cases truth <;> rfl

theorem of_null (memory : Memory) : Object.null.Of memory :=
  getElem?_mono memory.shared rfl

/-- A memory in which one more identity stands for something. -/
def push (memory : Memory) (value : Value) (h : ∀ object ∈ value.held, object.Of memory) : Memory where
  values := memory.values ++ [value]
  shared := memory.shared.trans (List.prefix_append _ _)
  closed := by
    intro other hm object ho
    have hp : memory.values <+: memory.values ++ [value] := List.prefix_append _ _
    obtain hm | hm := List.mem_append.mp hm
    · exact getElem?_mono hp (memory.closed other hm object ho)
    · obtain rfl := List.mem_singleton.mp hm
      exact getElem?_mono hp (h object ho)

/-- A store that gives out no identity of the memory, and binds only what is of it. -/
structure Describes (memory : Memory) (store : Store) : Prop where
  length_eq : memory.values.length = store.nextId
  bound : ∀ id, ∀ binding ∈ store.locals id, binding.2.Of memory

/-- A store that has come to bind less or the same. -/
theorem Describes.of_locals {before after : Store} (h : memory.Describes before) (hn : after.nextId = before.nextId)
    (hl : ∀ id, ∀ binding ∈ after.locals id, binding ∈ before.locals id) : memory.Describes after :=
  ⟨h.length_eq.trans hn.symm, fun id binding hm => h.bound id binding (hl id binding hm)⟩

/-- The next identity is given out. -/
theorem Describes.push {before : Store} (h : memory.Describes before) {value : Value}
    (hv : ∀ object ∈ value.held, object.Of memory) : (memory.push value hv).Describes (before.allocate value).2 where
  length_eq := by
    show (memory.values ++ [value]).length = before.nextId + 1
    rw [List.length_append, h.length_eq, List.length_singleton]
  bound id binding hm := (h.bound id binding hm).mono (List.prefix_append _ _)

/-- A program adds to what identities stand for and changes nothing in it. -/
def regime [ByteHash] : Regime Memory where
  later memory later := memory.values <+: later.values
  store := Describes
  scope _ _ := True
  object memory object := object.Of memory
  value memory value := ∀ object ∈ value.held, object.Of memory
  entries memory entries := ∀ object ∈ (Value.hash entries).held, object.Of memory
  refl _ := List.prefix_rfl
  trans := List.IsPrefix.trans
  scope_mono _ _ := trivial
  object_mono hl h := h.mono hl
  entries_mono hl h object hm := (h object hm).mono hl
  ofBool := of_ofBool
  null := of_null
  element ha hv hm := ha.held (hv ▸ hm)
  entry hh hv hm :=
    ⟨hh.held (hv ▸ Value.mem_held_hash.mpr ⟨_, hm, .inl rfl⟩), hh.held (hv ▸ Value.mem_held_hash.mpr ⟨_, hm, .inr rfl⟩)⟩
  closure _ _ := trivial
  bound h hm := h.bound _ _ hm
  number _ _ := List.forall_mem_nil _
  string _ _ := List.forall_mem_nil _
  builtin _ _ := List.forall_mem_nil _
  function _ _ _ := List.forall_mem_nil _
  array h := h
  hash h := h
  nothing _ := List.forall_mem_nil _
  insert := by
    intro memory entries key name value h _ hn hv object hm
    obtain ⟨entry, hm, ho⟩ := Value.mem_held_hash.mp hm
    obtain rfl | hm := Assoc.mem_insert hm
    · obtain rfl | rfl := ho
      · exact hn
      · exact hv
    · exact h object (Value.mem_held_hash.mpr ⟨entry, hm, ho⟩)
  allocated := by
    intro memory before value h hv
    refine ⟨memory.push value hv, List.prefix_append _ _, h.push hv, ?_⟩
    show (memory.values ++ [value])[before.nextId]? = some value
    rw [← h.length_eq, List.getElem?_concat_length]
  assigned := by
    intro memory before object h ho scope name
    refine ⟨h.length_eq, fun id binding hm => ?_⟩
    obtain rfl | hm := Store.mem_locals_set hm
    · exact ho
    · exact h.bound id binding hm
  enclosed {memory before outer} h _ :=
    ⟨memory, List.prefix_rfl, h.of_locals rfl fun _ _ hm => Store.locals_enclose outer ▸ hm, trivial⟩
  begins := ⟨empty, rfl, by simp [Store.locals, Store.empty]⟩
  rooted {memory before} h :=
    ⟨memory, List.prefix_rfl, h.of_locals rfl fun _ _ hm => Store.locals_enclose before.openRoot.1 ▸ hm, trivial⟩
  outer _ _ := trivial
  -- Nothing leads to an error object, so it does not matter what is taken down for it.
  skipped {memory before} h :=
    ⟨memory.push .null (List.forall_mem_nil _), List.prefix_append _ _, h.push (List.forall_mem_nil _)⟩

end Memory

/-- **Of what can be got at in a session, no two objects have one identity.** -/
theorem Session.Gave.eq_of_id_eq [ByteHash] {session : Session} {given : List Object} (h : session.Gave given)
    (ha : session.store.Reaches given a) (hb : session.store.Reaches given b) (he : a.id = b.id) : a = b := by
  obtain ⟨memory, hs⟩ := Memory.regime.gave h
  exact (hs.reaches ha).eq_of_id_eq (hs.reaches hb) he

end TinyScript
