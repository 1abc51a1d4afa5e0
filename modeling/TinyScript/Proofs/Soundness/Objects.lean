import TinyScript.Evaluation.Collection
import TinyScript.Proofs.Evaluation.Links

/-! # Sound objects

What can be said of every object that a program gets hold of. It has an identity that was given out before;
the truth values and null are the shared objects; a hash holds every entry under the key that the entry's own
name gives, and no two under one key; and there is no error among the objects. A store that makes such objects
and binds them stays sound.
-/

namespace TinyScript

/-- A new key comes last, and one that is held already stays in its place. -/
theorem Assoc.keys_insert {κ ν : Type} [DecidableEq κ] (key : κ) (value : ν) (pairs : List (κ × ν)) :
    (insert key value pairs).map Prod.fst =
      if key ∈ pairs.map Prod.fst then pairs.map Prod.fst else pairs.map Prod.fst ++ [key] := by
  induction pairs with
  | nil => rfl
  | cons pair pairs ih =>
    obtain ⟨k, v⟩ := pair
    by_cases hk : k = key
    · subst hk
      simp [insert]
    · simp only [insert, if_neg hk, List.map_cons, ih, List.mem_cons, Ne.symm hk, false_or]
      split <;> rfl

/-- Writing to a key keeps keys apart. -/
theorem Assoc.nodup_insert {κ ν : Type} [DecidableEq κ] {key : κ} {value : ν} {pairs : List (κ × ν)}
    (h : (pairs.map Prod.fst).Nodup) : ((insert key value pairs).map Prod.fst).Nodup := by
  rw [keys_insert]
  split
  · exact h
  · next hm =>
    refine List.nodup_append.mpr ⟨h, List.pairwise_singleton _ key, fun a ha b hb he => hm ?_⟩
    obtain rfl := List.mem_singleton.mp hb
    exact he ▸ ha

section Definitions

variable [ByteHash] (bound : Nat)

mutual

/-- An object that was made before a bound, and in which nothing is wrong. -/
def Object.Sound : Object → Prop
  | ⟨id, value⟩ => id < bound ∧ Value.Sound id value

/-- A value of an object in which nothing is wrong. -/
def Value.Sound (id : Nat) : Value → Prop
  | .number _ => True
  | .boolean value => id = (Object.ofBool value).id
  | .null => id = Object.null.id
  | .string _ => True
  | .array elements => Object.SoundAll elements
  | .hash entries => Object.SoundEntries entries ∧ (entries.map Prod.fst).Nodup
  | .function _ _ _ => True
  | .builtin _ => True
  | .error _ => False

/-- Objects in which nothing is wrong. -/
def Object.SoundAll : List Object → Prop
  | [] => True
  | object :: objects => object.Sound ∧ Object.SoundAll objects

/-- Entries under the keys that their names give. -/
def Object.SoundEntries : List (Key × Object × Object) → Prop
  | [] => True
  | (key, name, value) :: entries =>
    (name.value.key? = some key ∧ name.Sound ∧ value.Sound) ∧ Object.SoundEntries entries

end

/-- A store that binds nothing but sound objects. -/
structure Store.Sound (store : Store) : Prop where
  firstFresh_le : Object.firstFresh ≤ store.nextId
  bound : ∀ id, ∀ binding ∈ store.locals id, binding.2.Sound store.nextId

end Definitions

variable [ByteHash] {bound later : Nat}

theorem Object.sound_iff {object : Object} :
    object.Sound bound ↔ object.id < bound ∧ object.value.Sound bound object.id := by
  cases object
  rfl

theorem Object.soundAll_iff {objects : List Object} :
    Object.SoundAll bound objects ↔ ∀ object ∈ objects, object.Sound bound := by
  induction objects with
  | nil => simp [Object.SoundAll]
  | cons object objects ih => simp [Object.SoundAll, ih]

/-- Each key is that of the name it stands for. -/
theorem Object.soundEntries_iff {entries : List (Key × Object × Object)} :
    Object.SoundEntries bound entries ↔ ∀ entry ∈ entries,
      entry.2.1.value.key? = some entry.1 ∧ entry.2.1.Sound bound ∧ entry.2.2.Sound bound := by
  induction entries with
  | nil => simp [Object.SoundEntries]
  | cons entry entries ih =>
    obtain ⟨key, name, value⟩ := entry
    simp [Object.SoundEntries, ih]

mutual

/-- What is sound stays so when more objects are made. -/
theorem Object.Sound.mono (hl : bound ≤ later) : ∀ {object : Object}, object.Sound bound → object.Sound later
  | ⟨_, _⟩, h => ⟨Nat.lt_of_lt_of_le h.1 hl, Value.Sound.mono hl h.2⟩

/-- A value stays sound when more identities are taken. -/
theorem Value.Sound.mono (hl : bound ≤ later) {id : Nat} :
    ∀ {value : Value}, value.Sound bound id → value.Sound later id
  | .number _, _ | .string _, _ | .function _ _ _, _ | .builtin _, _ => trivial
  | .boolean _, h => h
  | .null, h => h
  | .array _, h => Object.SoundAll.mono hl h
  | .hash _, h => ⟨Object.SoundEntries.mono hl h.1, h.2⟩

theorem Object.SoundAll.mono (hl : bound ≤ later) :
    ∀ {objects : List Object}, Object.SoundAll bound objects → Object.SoundAll later objects
  | [], _ => trivial
  | _ :: _, h => ⟨Object.Sound.mono hl h.1, Object.SoundAll.mono hl h.2⟩

theorem Object.SoundEntries.mono (hl : bound ≤ later) : ∀ {entries : List (Key × Object × Object)},
    Object.SoundEntries bound entries → Object.SoundEntries later entries
  | [], _ => trivial
  | (_, _, _) :: _, h =>
    ⟨⟨h.1.1, Object.Sound.mono hl h.1.2.1, Object.Sound.mono hl h.1.2.2⟩, Object.SoundEntries.mono hl h.2⟩

end

/-! ## The shared objects -/

theorem Object.sound_ofBool (hb : Object.firstFresh ≤ bound) (value : Bool) :
    (Object.ofBool value).Sound bound := by
  refine ⟨Nat.lt_of_lt_of_le ?_ hb, rfl⟩
  cases value <;> decide

theorem Object.sound_null (hb : Object.firstFresh ≤ bound) : Object.null.Sound bound :=
  ⟨Nat.lt_of_lt_of_le (by decide : 2 < Object.firstFresh) hb, rfl⟩

/-! ## Entries and stores -/

/-- Writing an entry under the key of its name keeps a hash sound. -/
theorem Object.soundEntries_insert {key : Key} {name value : Object} {held : List (Key × Object × Object)}
    (hk : name.value.key? = some key) (hn : name.Sound bound) (hv : value.Sound bound)
    (hh : Object.SoundEntries bound held) :
    Object.SoundEntries bound (Assoc.insert key (name, value) held) := by
  refine Object.soundEntries_iff.mpr fun entry hm => ?_
  obtain rfl | hm := Assoc.mem_insert hm
  · exact ⟨hk, hn, hv⟩
  · exact Object.soundEntries_iff.mp hh entry hm

namespace Store.Sound

variable {store : Store} {scope : Scope}

/-- A name stands for a sound object. -/
theorem get? (h : store.Sound) {name : String} {object : Object}
    (hg : store.get? scope name = some object) : object.Sound store.nextId := by
  obtain ⟨id, hm⟩ := Store.exists_mem_of_get? hg
  exact h.bound id _ hm

/-- Binding a sound object keeps the store sound. -/
theorem set (h : store.Sound) (scope : Scope) (name : String) {object : Object}
    (ho : object.Sound store.nextId) : (store.set scope name object).Sound := by
  refine ⟨h.firstFresh_le, fun id binding hm => ?_⟩
  obtain rfl | hm := Store.mem_locals_set hm
  · exact ho
  · exact h.bound id binding hm

/-- Making an object changes none that there is. -/
theorem allocated (h : store.Sound) (value : Value) : (store.allocate value).2.Sound :=
  ⟨Nat.le_succ_of_le h.firstFresh_le, fun id binding hm => (h.bound id binding hm).mono (Nat.le_succ _)⟩

/-- A new object is sound if its value is. -/
theorem allocate (h : store.Sound) {value : Value} (hv : ∀ id, value.Sound store.nextId id) :
    (store.allocate value).2.Sound ∧ (store.allocate value).1.Sound (store.nextId + 1) :=
  ⟨h.allocated value, Nat.lt_succ_self _, (hv _).mono (Nat.le_succ _)⟩

/-- Opening a scope changes no object. -/
theorem push (h : store.Sound) : (Store.mk (store.bindings.push []) store.nextId).Sound := by
  refine ⟨h.firstFresh_le, fun id binding hm => ?_⟩
  have hl : (Store.mk (store.bindings.push []) store.nextId).locals id = store.locals id :=
    Store.locals_enclose (.root 0)
  rw [hl] at hm
  exact h.bound id binding hm

end Store.Sound

end TinyScript
