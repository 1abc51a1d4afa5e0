import Mathlib.Data.List.Nodup
import TinyScript.Proofs.Collection.LastWrite
import TinyScript.Proofs.Rendering.ByteOrder
import TinyScript.Text.Fx

/-! # The text of a hash

A map may give its entries in any order. Two objects are **reordered** when they differ in nothing but the order of the
entries of the hashes in them, however deep, and in the identities of the objects. The text of a hash is made of the
sorted texts of its entries, and the order of texts has no ties between different texts, so reordered objects have one
text, even where different keys have the same text (`Object.Reordered.render_eq`). **The text of a hash depends on the
set of its entries alone, and lists every one of them, in the order of their bytes** (`Value.render_canonical`).
-/

namespace TinyScript

/-! ## The order of the texts of entries -/

namespace Text

variable {a b c : String × String}

/-- The order of the entries is that of their texts, and so no two entries tie that can be told apart. -/
theorem entryLE_antisymm (h : entryLE a b = true) (h' : entryLE b a = true) : a = b := by
  rw [entryLE_iff] at h h'
  rcases h with hlt | ⟨he, hle⟩
  · rcases h' with hlt' | ⟨he', -⟩
    · exact absurd hlt' (List.lt_asymm hlt)
    · rw [he'] at hlt
      exact absurd hlt (List.lt_irrefl _)
  · rcases h' with hlt' | ⟨-, hle'⟩
    · rw [he] at hlt'
      exact absurd hlt' (List.lt_irrefl _)
    · exact Prod.ext (bytes_inj.mp he) (bytes_inj.mp (List.le_antisymm hle hle'))

theorem entryLE_trans (h : entryLE a b = true) (h' : entryLE b c = true) : entryLE a c = true := by
  rw [entryLE_iff] at *
  rcases h with hlt | ⟨he, hle⟩
  · rcases h' with hlt' | ⟨he', -⟩
    · exact .inl (List.lt_trans hlt hlt')
    · exact .inl (he' ▸ hlt)
  · rcases h' with hlt' | ⟨he', hle'⟩
    · exact .inl (he ▸ hlt')
    · exact .inr ⟨he.trans he', List.le_trans hle hle'⟩

theorem entryLE_total (a b : String × String) : (entryLE a b || entryLE b a) = true := by
  rw [Bool.or_eq_true, entryLE_iff, entryLE_iff, bytes_lt_bytes_iff, bytes_lt_bytes_iff, bytes_inj, bytes_inj]
  by_cases he : a.1 = b.1
  · rcases List.le_total (bytes a.2) (bytes b.2) with hle | hle
    · exact .inl (.inr ⟨he, hle⟩)
    · exact .inr (.inr ⟨he.symm, hle⟩)
  · rcases String.le_total a.1 b.1 with hle | hle
    · exact .inl (.inl (Std.lt_of_le_of_ne hle he))
    · exact .inr (.inl (Std.lt_of_le_of_ne hle (Ne.symm he)))

/-- What is sorted by the texts of entries stands in their order. -/
theorem pairwise_mergeSort_entryLE {α : Type} (texts : α → String × String) (l : List α) :
    (l.mergeSort fun a b => entryLE (texts a) (texts b)).Pairwise fun a b => entryLE (texts a) (texts b) = true := by
  apply List.pairwise_mergeSort
  · intro a b c hab hbc
    exact entryLE_trans hab hbc
  · intro a b
    exact entryLE_total (texts a) (texts b)

/-- Whatever order the texts of the entries come in, the sorted ones are the same. -/
theorem hash_perm {entries entries' : List (String × String)} (h : entries.Perm entries') :
    hash entries = hash entries' := by
  have hp : (entries.mergeSort entryLE).Perm (entries'.mergeSort entryLE) :=
    (List.mergeSort_perm entries entryLE).trans (h.trans (List.mergeSort_perm entries' entryLE).symm)
  have hs : entries.mergeSort entryLE = entries'.mergeSort entryLE :=
    hp.eq_of_pairwise (fun _ _ _ _ => entryLE_antisymm) (pairwise_mergeSort_entryLE id entries)
      (pairwise_mergeSort_entryLE id entries')
  unfold hash
  rw [hs]

end Text

/-- The texts of the name and the value of an entry. -/
def Object.entryTexts (entry : Key × Object × Object) : String × String :=
  (entry.2.1.render, entry.2.2.render)

theorem Object.renderEntries_eq_map (entries : List (Key × Object × Object)) :
    Object.renderEntries entries = entries.map Object.entryTexts := by
  induction entries with
  | nil => rfl
  | cons entry entries ih =>
    show Object.entryTexts entry :: Object.renderEntries entries = _
    rw [ih, List.map_cons]

/-! ## Objects that differ in the order of their entries -/

mutual

/-- Objects that hold the same, but for the order of the entries of hashes. -/
inductive Object.Reordered : Object → Object → Prop where
  | mk (id id' : Nat) {value value' : Value} (h : Value.Reordered value value') :
      Object.Reordered ⟨id, value⟩ ⟨id', value'⟩

/-- Values that are the same, but for the order of the entries of hashes. -/
inductive Value.Reordered : Value → Value → Prop where
  | refl (value : Value) : Value.Reordered value value
  | array {elements elements' : List Object} (h : Object.ReorderedAll elements elements') :
      Value.Reordered (.array elements) (.array elements')
  | hash {entries turned entries' : List (Key × Object × Object)} (hp : entries.Perm turned)
      (h : Object.ReorderedEntries turned entries') : Value.Reordered (.hash entries) (.hash entries')

/-- Objects that differ in the order of entries, one for one. -/
inductive Object.ReorderedAll : List Object → List Object → Prop where
  | nil : Object.ReorderedAll [] []
  | cons {object object' : Object} {objects objects' : List Object} (h : Object.Reordered object object')
      (ht : Object.ReorderedAll objects objects') : Object.ReorderedAll (object :: objects) (object' :: objects')

/-- Entries whose names and values differ in the order of entries, one for one. -/
inductive Object.ReorderedEntries : List (Key × Object × Object) → List (Key × Object × Object) → Prop where
  | nil : Object.ReorderedEntries [] []
  | cons (key key' : Key) {name name' value value' : Object} {entries entries' : List (Key × Object × Object)}
      (hn : Object.Reordered name name') (hv : Object.Reordered value value')
      (ht : Object.ReorderedEntries entries entries') :
      Object.ReorderedEntries ((key, name, value) :: entries) ((key', name', value') :: entries')

end

mutual

/-- **Objects that differ in the order of entries have one text.** -/
theorem Object.Reordered.render_eq : ∀ {object object' : Object}, object.Reordered object' →
    object.render = object'.render
  | _, _, .mk _ _ h => Value.Reordered.render_eq h

/-- The entries are sorted at every depth before they are joined. -/
theorem Value.Reordered.render_eq : ∀ {value value' : Value}, value.Reordered value' → value.render = value'.render
  | _, _, .refl _ => rfl
  | _, _, .array h =>
    congrArg (fun texts => "[" ++ Text.commaSeparated texts ++ "]") (Object.ReorderedAll.renderAll_eq h)
  | .hash entries, .hash entries', .hash hp h => by
    show Text.hash (Object.renderEntries entries) = Text.hash (Object.renderEntries entries')
    rw [← Object.ReorderedEntries.renderEntries_eq h, Object.renderEntries_eq_map, Object.renderEntries_eq_map]
    exact Text.hash_perm (hp.map _)

theorem Object.ReorderedAll.renderAll_eq : ∀ {objects objects' : List Object},
    Object.ReorderedAll objects objects' → Object.renderAll objects = Object.renderAll objects'
  | _, _, .nil => rfl
  | _, _, .cons h ht => by
    show Object.render _ :: Object.renderAll _ = _
    rw [Object.Reordered.render_eq h, Object.ReorderedAll.renderAll_eq ht]
    rfl

theorem Object.ReorderedEntries.renderEntries_eq : ∀ {entries entries' : List (Key × Object × Object)},
    Object.ReorderedEntries entries entries' → Object.renderEntries entries = Object.renderEntries entries'
  | _, _, .nil => rfl
  | _, _, .cons _ _ hn hv ht => by
    show (Object.render _, Object.render _) :: Object.renderEntries _ = _
    rw [Object.Reordered.render_eq hn, Object.Reordered.render_eq hv, Object.ReorderedEntries.renderEntries_eq ht]
    rfl

end

theorem Object.Reordered.refl (object : Object) : object.Reordered object := by
  obtain ⟨id, value⟩ := object
  exact .mk id id (.refl value)

theorem Object.ReorderedEntries.refl (entries : List (Key × Object × Object)) :
    Object.ReorderedEntries entries entries := by
  induction entries with
  | nil => exact .nil
  | cons entry entries ih => exact .cons entry.1 entry.1 (.refl entry.2.1) (.refl entry.2.2) ih

/-- Entries of different keys make reordered hashes, in whatever order they are written. -/
theorem Value.reordered_insertAll {writes writes' : List (Key × Object × Object)} (hp : writes.Perm writes')
    (hn : (writes.map Prod.fst).Nodup) :
    (Value.hash (Assoc.insertAll writes [])).Reordered (.hash (Assoc.insertAll writes' [])) := by
  have hn' : (writes'.map Prod.fst).Nodup := (hp.map Prod.fst).nodup hn
  rw [Assoc.insertAll_eq_self hn, Assoc.insertAll_eq_self hn']
  exact .hash hp (.refl writes')

/-- The entries of a hash in the order of their texts, which is the order in which its text lists them. -/
theorem Value.exists_listed (entries : List (Key × Object × Object)) : ∃ listed : List (Key × Object × Object),
    listed.Perm entries ∧
    listed.Pairwise (fun a b => Text.entryLE (Object.entryTexts a) (Object.entryTexts b) = true) ∧
    (Value.hash entries).render = "\x7b" ++
      Text.commaSeparated (listed.map fun entry => entry.2.1.render ++ ": " ++ entry.2.2.render) ++ "\x7d" := by
  refine ⟨entries.mergeSort fun a b => Text.entryLE (Object.entryTexts a) (Object.entryTexts b),
    List.mergeSort_perm .., Text.pairwise_mergeSort_entryLE Object.entryTexts entries, ?_⟩
  have hs : (entries.map Object.entryTexts).mergeSort Text.entryLE =
      (entries.mergeSort fun a b => Text.entryLE (Object.entryTexts a) (Object.entryTexts b)).map
        Object.entryTexts := by
    symm
    apply List.map_mergeSort
    intro a _ b _
    rfl
  show Text.hash (Object.renderEntries entries) = _
  rw [Object.renderEntries_eq_map, Text.hash, hs, List.map_map]
  rfl

/-! ## The entries of a hash as a set -/

section

variable [ByteHash]

/-- Entries under the keys that their names give, no two under one key. -/
structure Object.Keyed (entries : List (Key × Object × Object)) : Prop where
  key?_eq : ∀ entry ∈ entries, entry.2.1.value.key? = some entry.1
  nodup : (entries.map Prod.fst).Nodup

/-- A hash that was written entry by entry, each under the key that its name gives. -/
theorem Object.keyed_insertAll {writes : List (Key × Object × Object)}
    (h : ∀ write ∈ writes, write.2.1.value.key? = some write.1) : Object.Keyed (Assoc.insertAll writes []) where
  key?_eq entry hm := by
    obtain ⟨i, hl⟩ := Assoc.mem_insertAll_iff.mp hm
    exact h entry hl.mem
  nodup := Assoc.nodup_insertAll writes

variable {entries entries' : List (Key × Object × Object)}

/-- The key of an entry can be told from its name. -/
theorem Object.Keyed.mem_of_mem_map (h : Object.Keyed entries) (h' : Object.Keyed entries')
    (hs : ∀ pair, pair ∈ entries.map Prod.snd → pair ∈ entries'.map Prod.snd)
    {entry : Key × Object × Object} (hm : entry ∈ entries) : entry ∈ entries' := by
  obtain ⟨other, hm', he⟩ := List.mem_map.mp (hs entry.2 (List.mem_map.mpr ⟨entry, hm, rfl⟩))
  have hk : some other.1 = some entry.1 := by
    rw [← h'.key?_eq other hm', ← h.key?_eq entry hm, he]
  have he : other = entry := Prod.ext (Option.some.inj hk) he
  rwa [← he]

/-- Hashes that hold the same set of names and values differ in the order of their entries. -/
theorem Object.Keyed.reordered (h : Object.Keyed entries) (h' : Object.Keyed entries')
    (hs : ∀ pair, pair ∈ entries.map Prod.snd ↔ pair ∈ entries'.map Prod.snd) :
    (Value.hash entries).Reordered (.hash entries') := by
  have hp : entries.Perm entries' := by
    rw [List.perm_ext_iff_of_nodup (h.nodup.of_map _) (h'.nodup.of_map _)]
    intro entry
    constructor
    · exact h.mem_of_mem_map h' fun pair => (hs pair).mp
    · exact h'.mem_of_mem_map h fun pair => (hs pair).mpr
  exact .hash hp (.refl entries')

/-- **The text of a hash depends on the set of its entries alone.** However the maps in a value order their entries, at
whatever depth, the text is the same. Two hashes that hold the same pairs of a name and a value differ in that order and
in nothing else, where every entry is under the key that its name gives, as it is in all hashes that are written so. In
whatever orders entries of different keys are written, the hashes differ in nothing else either. The text lists every
entry once, and a later one has a key text with greater bytes, or the same key text and a value text whose bytes are not
less. -/
theorem Value.render_canonical :
    (∀ {value value' : Value}, value.Reordered value' → value.render = value'.render) ∧
    (∀ {entries entries' : List (Key × Object × Object)}, Object.Keyed entries → Object.Keyed entries' →
      (∀ pair, pair ∈ entries.map Prod.snd ↔ pair ∈ entries'.map Prod.snd) →
      (Value.hash entries).Reordered (.hash entries')) ∧
    (∀ {writes : List (Key × Object × Object)}, (∀ write ∈ writes, write.2.1.value.key? = some write.1) →
      Object.Keyed (Assoc.insertAll writes [])) ∧
    (∀ {writes writes' : List (Key × Object × Object)}, writes.Perm writes' → (writes.map Prod.fst).Nodup →
      (Value.hash (Assoc.insertAll writes [])).Reordered (.hash (Assoc.insertAll writes' []))) ∧
    (∀ entries : List (Key × Object × Object), ∃ listed : List (Key × Object × Object),
      listed.Perm entries ∧
      listed.Pairwise (fun a b => Text.bytes a.2.1.render < Text.bytes b.2.1.render ∨
        Text.bytes a.2.1.render = Text.bytes b.2.1.render ∧ Text.bytes a.2.2.render ≤ Text.bytes b.2.2.render) ∧
      (Value.hash entries).render = "\x7b" ++
        Text.commaSeparated (listed.map fun entry => entry.2.1.render ++ ": " ++ entry.2.2.render) ++ "\x7d") := by
  refine ⟨Value.Reordered.render_eq, Object.Keyed.reordered, Object.keyed_insertAll, Value.reordered_insertAll, ?_⟩
  intro entries
  obtain ⟨listed, hp, ho, ht⟩ := Value.exists_listed entries
  refine ⟨listed, hp, ?_, ht⟩
  exact ho.imp fun h => Text.entryLE_iff.mp h

end

/-- A number and a string of one text, written in either order, in a hash inside an array. -/
theorem Value.render_canonical_mixed :
    let number : Key × Object × Object := (.number 1065353216, ⟨3, .number (.finite false 1065353216)⟩, .null)
    let string : Key × Object × Object := (.string (Text.fingerprint "1"), ⟨4, .string "1"⟩, .ofBool true)
    Object.Keyed [number, string] ∧ Object.Keyed [string, number] ∧
      (Value.hash [number, string]).Reordered (.hash [string, number]) ∧
      Object.Keyed (Assoc.insertAll [number, string] []) ∧
      (Value.hash (Assoc.insertAll [number, string] [])).Reordered (.hash (Assoc.insertAll [string, number] [])) ∧
      (Value.array [⟨5, .hash [number, string]⟩]).Reordered (.array [⟨6, .hash [string, number]⟩]) ∧
      (Value.array [⟨5, .hash [number, string]⟩]).render = (Value.array [⟨6, .hash [string, number]⟩]).render := by
  intro number string
  obtain ⟨render_eq, reordered, keyed, reordered_insertAll, -⟩ := Value.render_canonical
  have hk : Object.Keyed [number, string] := by
    constructor
    · intro entry hm
      rcases List.mem_pair.mp hm with rfl | rfl
      · decide
      · rfl
    · simp [number, string]
  have hp : [number, string].Perm [string, number] := .swap string number []
  have hk' : Object.Keyed [string, number] :=
    ⟨fun entry hm => hk.key?_eq entry (hp.mem_iff.mpr hm), (hp.map Prod.fst).nodup hk.nodup⟩
  have hh := reordered hk hk' fun pair => (hp.map Prod.snd).mem_iff
  have ha : (Value.array [⟨5, .hash [number, string]⟩]).Reordered (.array [⟨6, .hash [string, number]⟩]) :=
    .array (.cons (.mk 5 6 hh) .nil)
  exact ⟨hk, hk', hh, keyed hk.key?_eq, reordered_insertAll hp hk.nodup, ha, render_eq ha⟩

end TinyScript
