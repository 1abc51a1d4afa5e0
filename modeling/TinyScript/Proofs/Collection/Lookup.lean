import Mathlib.Data.List.Nodup
import TinyScript.Proofs.Collection.LastWrite
import TinyScript.Proofs.Equality.Keys

/-! # A hash as a list of pairs

A hash is told from a list of pairs of a name and a value. It **refines** that list when it holds of the pairs with
equal names the last one, the name along with the value: looking an object up gives the value of the last pair whose
name is of the object's kind and equals it, and null where no name does (`Object.Refines`). A map that is written pair
by pair, each under the key that its name gives, refines the list of what was written (`Object.refines_insertAll`).

Names are compared by `==` here and by their keys in the map. That these agree is a fact about the objects that are
compared (`Object.equals_iff`): the truth values among them are the shared ones, and no two of their strings have one
fingerprint.
-/

namespace TinyScript

namespace Object

/-- Of one kind, and equal. -/
def Equals (a b : Object) : Prop :=
  a.kind = b.kind ∧ BinaryOp.equal.apply a b = .ok (.truth true)

/-- A truth value, if it is one, is the shared object of that value, as all that evaluation makes are. -/
def Shared (object : Object) : Prop :=
  ∀ value, object.value = .boolean value → object = .ofBool value

variable [ByteHash]

/-- Different strings among the objects have different fingerprints. -/
def ToldApart (objects : List Object) : Prop :=
  ∀ a ∈ objects, ∀ b ∈ objects, ∀ s t, a.value = .string s → b.value = .string t →
    Text.fingerprint s = Text.fingerprint t → s = t

/-- One object for each class of equal ones among `names`. -/
structure Represent (distinct names : List Object) : Prop where
  subset : ∀ name ∈ distinct, name ∈ names
  apart : distinct.Pairwise fun a b => ¬ a.Equals b
  covers : ∀ name ∈ names, ∃ other ∈ distinct, name.Equals other

/-- An object that can be looked up among names. -/
structure LooksUp (object : Object) (names : List Object) : Prop where
  hashable : object.value.key?.isSome
  shared : object.Shared
  toldApart : ToldApart (object :: names)

/-- A hash that holds what a list of pairs of a name and a value says, where later pairs take the place of earlier ones
with equal names. -/
structure Refines (hash : Object) (held : List (Key × Object × Object)) (pairs : List (Object × Object)) : Prop where
  value_eq : hash.value = .hash held
  found : ∀ object, object.LooksUp (pairs.map Prod.fst) → ∀ i pair,
    LastAt (fun pair => pair.1.Equals object) pairs i pair → hash.index object = .ok pair.2
  missing : ∀ object, object.LooksUp (pairs.map Prod.fst) →
    (∀ pair ∈ pairs, ¬ pair.1.Equals object) → hash.index object = .ok .null
  kept : ToldApart (pairs.map Prod.fst) → ∀ pair, pair ∈ held.map Prod.snd ↔
    ∃ i, LastAt (fun other => other.1.Equals pair.1) pairs i pair
  represent : ToldApart (pairs.map Prod.fst) →
    Represent (held.map fun entry => entry.2.1) (pairs.map Prod.fst) ∧
    ∀ distinct, Represent distinct (pairs.map Prod.fst) → held.length = distinct.length

variable {a b object : Object} {k l : Key} {names distinct : List Object}

/-- Objects that give keys are equal exactly if these are. -/
theorem equals_iff (hk : a.value.key? = some k) (hl : b.value.key? = some l) (ha : a.Shared) (hb : b.Shared)
    (hs : ∀ s t, a.value = .string s → b.value = .string t → Text.fingerprint s = Text.fingerprint t → s = t) :
    a.Equals b ↔ k = l := by
  rw [← Value.sharesKey_iff_eq hk hl]
  constructor
  · rintro ⟨hkind, he⟩
    have hself : a.value.SharesKey a.value := ⟨k, hk, hk⟩
    obtain ⟨kind, hm, hka, -⟩ := exists_kind_of_sharesKey hself
    exact (sharesKey_iff_of_kind hm hka (hkind ▸ hka) ha hb hs).mpr he
  · intro h
    obtain ⟨kind, hm, hka, hkb⟩ := exists_kind_of_sharesKey h
    exact ⟨hka.trans hkb.symm, (sharesKey_iff_of_kind hm hka hkb ha hb hs).mp h⟩

/-- What a hash holds under the key of an object. -/
theorem index_of_key? {hash : Object} {held : List (Key × Object × Object)} (hv : hash.value = .hash held)
    (hk : object.value.key? = some k) : hash.index object = .ok (entryAt held k) := by
  have hf : object.keyOrFault = .ok k := by
    unfold keyOrFault
    rw [hk]
  unfold index
  rw [hv]
  show object.keyOrFault.map (entryAt held) = _
  rw [hf]
  rfl

/-! ## What was written -/

section Written

variable {writes : List (Key × Object × Object)} (hkey : ∀ write ∈ writes, write.2.1.value.key? = some write.1)
  (hshared : ∀ write ∈ writes, write.2.1.Shared)

include hkey hshared

/-- An object equals exactly the names that were written under its key. -/
theorem LooksUp.equals_iff (h : object.LooksUp ((writes.map Prod.snd).map Prod.fst)) (hk : object.value.key? = some k) :
    ∀ write ∈ writes, write.2.1.Equals object ↔ write.1 = k := by
  intro write hm
  have hname : write.2.1 ∈ (writes.map Prod.snd).map Prod.fst :=
    List.mem_map_of_mem (List.mem_map_of_mem hm)
  exact Object.equals_iff (hkey write hm) hk (hshared write hm) h.shared
    (h.toldApart _ (List.mem_cons_of_mem _ hname) _ List.mem_cons_self)

/-- Names are equal exactly if they were written under one key. -/
theorem ToldApart.equals_iff (h : ToldApart ((writes.map Prod.snd).map Prod.fst)) :
    ∀ write ∈ writes, ∀ other ∈ writes, write.2.1.Equals other.2.1 ↔ write.1 = other.1 := by
  intro write hm other ho
  refine Object.equals_iff (hkey write hm) (hkey other ho) (hshared write hm) (hshared other ho) (h _ ?_ _ ?_)
  · exact List.mem_map_of_mem (List.mem_map_of_mem hm)
  · exact List.mem_map_of_mem (List.mem_map_of_mem ho)

/-- The names that are left stand for all that were written. -/
theorem represent_insertAll (h : ToldApart ((writes.map Prod.snd).map Prod.fst)) :
    Represent ((Assoc.insertAll writes []).map fun entry => entry.2.1) ((writes.map Prod.snd).map Prod.fst) := by
  have he := h.equals_iff hkey hshared
  have hw : ∀ entry ∈ Assoc.insertAll writes [], entry ∈ writes := by
    intro entry hm
    obtain ⟨i, hl⟩ := Assoc.mem_insertAll_iff.mp hm
    exact hl.mem
  constructor
  · intro name hm
    obtain ⟨entry, hentry, rfl⟩ := List.mem_map.mp hm
    exact List.mem_map_of_mem (List.mem_map_of_mem (hw entry hentry))
  · rw [List.pairwise_map]
    have hn := Assoc.nodup_insertAll writes
    rw [List.Nodup, List.pairwise_map] at hn
    refine hn.imp_of_mem ?_
    intro a b ha hb hne heq
    exact hne ((he a (hw a ha) b (hw b hb)).mp heq)
  · intro name hm
    rw [List.map_map] at hm
    obtain ⟨write, hwrite, rfl⟩ := List.mem_map.mp hm
    have hk : write.1 ∈ (Assoc.insertAll writes []).map Prod.fst :=
      Assoc.mem_keys_insertAll_iff.mpr (List.mem_map_of_mem hwrite)
    obtain ⟨entry, hentry, heq⟩ := List.mem_map.mp hk
    exact ⟨entry.2.1, List.mem_map_of_mem hentry, (he write hwrite entry (hw entry hentry)).mpr heq.symm⟩

/-- All lists of names that stand for all that were written are as long as the map. -/
theorem length_insertAll (h : ToldApart ((writes.map Prod.snd).map Prod.fst))
    (hr : Represent distinct ((writes.map Prod.snd).map Prod.fst)) :
    (Assoc.insertAll writes []).length = distinct.length := by
  have he := h.equals_iff hkey hshared
  have hw : ∀ name ∈ distinct, ∃ write ∈ writes, write.2.1 = name := by
    intro name hm
    have hname := hr.subset name hm
    rw [List.map_map] at hname
    exact List.mem_map.mp hname
  -- The keys of the names are different, as the names are, and they are the keys of the map.
  have hd : (distinct.map fun name => name.value.key?).Nodup := by
    rw [List.Nodup, List.pairwise_map]
    refine hr.apart.imp_of_mem ?_
    intro a b ha hb hne heq
    obtain ⟨write, hwrite, rfl⟩ := hw a ha
    obtain ⟨other, hother, rfl⟩ := hw b hb
    rw [hkey write hwrite, hkey other hother, Option.some.injEq] at heq
    exact hne ((he write hwrite other hother).mpr heq)
  have hn : (((Assoc.insertAll writes []).map Prod.fst).map some).Nodup :=
    (Assoc.nodup_insertAll writes).map fun _ _ => Option.some.inj
  have hp : (distinct.map fun name => name.value.key?).Perm (((Assoc.insertAll writes []).map Prod.fst).map some) := by
    rw [List.perm_ext_iff_of_nodup hd hn]
    intro key?
    rw [List.mem_map, List.mem_map]
    constructor
    · rintro ⟨name, hm, rfl⟩
      obtain ⟨write, hwrite, rfl⟩ := hw name hm
      exact ⟨write.1, Assoc.mem_keys_insertAll_iff.mpr (List.mem_map_of_mem hwrite), (hkey write hwrite).symm⟩
    · rintro ⟨key, hm, rfl⟩
      obtain ⟨write, hwrite, rfl⟩ := List.mem_map.mp (Assoc.mem_keys_insertAll_iff.mp hm)
      obtain ⟨name, hm, heq⟩ := hr.covers write.2.1 (List.mem_map_of_mem (List.mem_map_of_mem hwrite))
      obtain ⟨other, hother, rfl⟩ := hw name hm
      refine ⟨other.2.1, hm, ?_⟩
      rw [hkey other hother, (he write hwrite other hother).mp heq]
  have hlength := hp.length_eq
  simp only [List.length_map] at hlength
  exact hlength.symm

/-- **A hash that was written pair by pair refines the list of the pairs.** -/
theorem refines_insertAll (id : Nat) :
    Refines ⟨id, .hash (Assoc.insertAll writes [])⟩ (Assoc.insertAll writes []) (writes.map Prod.snd) where
  value_eq := rfl
  found object h i pair hlast := by
    obtain ⟨key, hk⟩ := Option.isSome_iff_exists.mp h.hashable
    obtain ⟨write, hl, rfl⟩ := lastAt_map_iff.mp hlast
    rw [lastAt_congr (h.equals_iff hkey hshared hk)] at hl
    obtain ⟨k, name, value⟩ := write
    obtain rfl : k = key := hl.holds
    have hf : Assoc.find? k (Assoc.insertAll writes []) = some (name, value) :=
      Assoc.find?_insertAll_eq_some_iff.mpr ⟨i, hl⟩
    rw [index_of_key? rfl hk, entryAt, hf]
    rfl
  missing object h hne := by
    obtain ⟨key, hk⟩ := Option.isSome_iff_exists.mp h.hashable
    have hf : Assoc.find? key (Assoc.insertAll writes []) = none := by
      cases hf : Assoc.find? key (Assoc.insertAll writes []) with
      | none => rfl
      | some pair =>
        obtain ⟨i, hl⟩ := Assoc.find?_insertAll_eq_some_iff.mp hf
        have he := (h.equals_iff hkey hshared hk _ hl.mem).mpr rfl
        exact absurd he (hne pair (List.mem_map_of_mem hl.mem))
    rw [index_of_key? rfl hk, entryAt, hf]
    rfl
  kept h pair := by
    have he := h.equals_iff hkey hshared
    simp only [List.mem_map, Assoc.mem_insertAll_iff, lastAt_map_iff]
    constructor
    · rintro ⟨write, ⟨i, hl⟩, rfl⟩
      exact ⟨i, write, (lastAt_congr fun other ho => he other ho write hl.mem).mpr hl, rfl⟩
    · rintro ⟨i, write, hl, rfl⟩
      exact ⟨write, ⟨i, (lastAt_congr fun other ho => he other ho write hl.mem).mp hl⟩, rfl⟩
  represent h := ⟨represent_insertAll hkey hshared h, fun _ => length_insertAll hkey hshared h⟩

end Written

end Object

end TinyScript
