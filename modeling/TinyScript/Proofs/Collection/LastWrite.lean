import Mathlib.Data.List.Induction
import TinyScript.Proofs.Soundness.Objects

/-! # What was last written

A map that pairs are written into, one after another, holds under each key what was written there last. Which pair that
is can be told from the list of the pairs: the one at the last position that has the key (`Assoc.mem_insertAll_iff`,
`Assoc.find?_insertAll_eq_some_iff`). Pairs of different keys may be written in any order
(`Assoc.insertAll_eq_self`).
-/

namespace TinyScript

/-- The last position of a list with an element of some kind, and the element. -/
structure LastAt {α : Type} (p : α → Prop) (l : List α) (i : Nat) (a : α) : Prop where
  getElem?_eq : l[i]? = some a
  holds : p a
  last : ∀ j b, i < j → l[j]? = some b → ¬ p b

section Positions

variable {α : Type} {p : α → Prop} {l : List α} {i : Nat} {a b : α}

/-- Behind a list an element is at the last position, unless it is of another kind. -/
theorem lastAt_concat_iff : LastAt p (l ++ [b]) i a ↔ p b ∧ i = l.length ∧ a = b ∨ ¬ p b ∧ LastAt p l i a := by
  constructor
  · rintro ⟨he, ha, hl⟩
    rcases Nat.lt_trichotomy i l.length with hi | rfl | hi
    · have hb : ¬ p b := hl l.length b hi List.getElem?_concat_length
      refine .inr ⟨hb, ?_, ha, ?_⟩
      · rwa [List.getElem?_append_left hi] at he
      · intro j c hj hc
        have hjl : j < l.length := (List.getElem?_eq_some_iff.mp hc).1
        exact hl j c hj (by rwa [List.getElem?_append_left hjl])
    · rw [List.getElem?_concat_length] at he
      cases he
      exact .inl ⟨ha, rfl, rfl⟩
    · rw [List.getElem?_eq_none (by simp; omega)] at he
      cases he
  · rintro (⟨hb, rfl, rfl⟩ | ⟨hb, he, ha, hl⟩)
    · refine ⟨List.getElem?_concat_length, hb, ?_⟩
      intro j c hj hc
      rw [List.getElem?_eq_none (by simp; omega)] at hc
      cases hc
    · have hi : i < l.length := (List.getElem?_eq_some_iff.mp he).1
      refine ⟨by rwa [List.getElem?_append_left hi], ha, ?_⟩
      intro j c hj hc
      rcases Nat.lt_trichotomy j l.length with hjl | rfl | hjl
      · rw [List.getElem?_append_left hjl] at hc
        exact hl j c hj hc
      · rw [List.getElem?_concat_length] at hc
        cases hc
        exact hb
      · rw [List.getElem?_eq_none (by simp; omega)] at hc
        cases hc

theorem LastAt.mem (h : LastAt p l i a) : a ∈ l :=
  List.mem_of_getElem? h.getElem?_eq

/-- The last position depends on nothing but which elements are looked for. -/
theorem lastAt_congr {q : α → Prop} (h : ∀ a ∈ l, p a ↔ q a) : LastAt p l i a ↔ LastAt q l i a := by
  constructor
  · rintro ⟨he, ha, hl⟩
    refine ⟨he, (h a (List.mem_of_getElem? he)).mp ha, ?_⟩
    intro j b hj hb hq
    exact hl j b hj hb ((h b (List.mem_of_getElem? hb)).mpr hq)
  · rintro ⟨he, ha, hl⟩
    refine ⟨he, (h a (List.mem_of_getElem? he)).mpr ha, ?_⟩
    intro j b hj hb hp
    exact hl j b hj hb ((h b (List.mem_of_getElem? hb)).mp hp)

/-- The last position in a list of images is that of the last element whose image is looked for. -/
theorem lastAt_map_iff {β : Type} {f : α → β} {q : β → Prop} {b : β} :
    LastAt q (l.map f) i b ↔ ∃ a, LastAt (fun a => q (f a)) l i a ∧ f a = b := by
  constructor
  · rintro ⟨he, hb, hl⟩
    rw [List.getElem?_map, Option.map_eq_some_iff] at he
    obtain ⟨a, ha, rfl⟩ := he
    refine ⟨a, ⟨ha, hb, ?_⟩, rfl⟩
    intro j c hj hc
    exact hl j (f c) hj (by rw [List.getElem?_map, hc, Option.map_some])
  · rintro ⟨a, ⟨he, ha, hl⟩, rfl⟩
    refine ⟨by rw [List.getElem?_map, he, Option.map_some], ha, ?_⟩
    intro j c hj hc
    rw [List.getElem?_map, Option.map_eq_some_iff] at hc
    obtain ⟨d, hd, rfl⟩ := hc
    exact hl j d hj hd

end Positions

namespace Assoc

variable {κ ν : Type} [DecidableEq κ] {key : κ} {value : ν} {pairs held : List (κ × ν)}

/-- Pairs written one after another. -/
def insertAll (pairs held : List (κ × ν)) : List (κ × ν) :=
  pairs.foldl (fun held pair => insert pair.1 pair.2 held) held

/-- Pairs are written in order, so the last one is written last. -/
theorem insertAll_concat (pair : κ × ν) :
    insertAll (pairs ++ [pair]) held = insert pair.1 pair.2 (insertAll pairs held) := by
  simp [insertAll]

/-- However it was written, no key is twice in a map. -/
theorem nodup_insertAll (pairs : List (κ × ν)) : ((insertAll pairs []).map Prod.fst).Nodup := by
  induction pairs using List.reverseRecOn with
  | nil => simp [insertAll]
  | append_singleton pairs pair ih =>
    rw [insertAll_concat]
    exact nodup_insert ih

/-- **A key leads to what was written last under it.** -/
theorem find?_insertAll_eq_some_iff : find? key (insertAll pairs []) = some value ↔
    ∃ i, LastAt (fun pair => pair.1 = key) pairs i (key, value) := by
  induction pairs using List.reverseRecOn with
  | nil =>
    simp only [insertAll, List.foldl_nil, find?_nil, reduceCtorEq, false_iff]
    rintro ⟨i, he, -⟩
    simp at he
  | append_singleton pairs pair ih =>
    simp only [insertAll_concat, lastAt_concat_iff]
    by_cases hk : pair.1 = key
    · subst hk
      simp [find?_insert_self, Prod.ext_iff, eq_comm]
    · simp [find?_insert_of_ne _ _ (Ne.symm hk), hk, ih]

/-- In a map that has no key twice, what is there is found. -/
theorem mem_iff_find? (h : (pairs.map Prod.fst).Nodup) : (key, value) ∈ pairs ↔ find? key pairs = some value := by
  refine ⟨fun hm => ?_, mem_of_find?⟩
  induction pairs with
  | nil => cases hm
  | cons pair pairs ih =>
    obtain ⟨k, v⟩ := pair
    obtain ⟨hk, hn⟩ := List.nodup_cons.mp h
    rcases List.mem_cons.mp hm with he | hm
    · cases he
      exact if_pos rfl
    · have hne : k ≠ key := by
        rintro rfl
        exact hk (List.mem_map.mpr ⟨_, hm, rfl⟩)
      rw [find?, if_neg hne]
      exact ih hn hm

/-- **A map holds the pairs that were written last under their keys.** -/
theorem mem_insertAll_iff {pair : κ × ν} : pair ∈ insertAll pairs [] ↔
    ∃ i, LastAt (fun other => other.1 = pair.1) pairs i pair := by
  rw [← find?_insertAll_eq_some_iff, ← mem_iff_find? (nodup_insertAll pairs)]

/-- Every key that was written is there. -/
theorem mem_keys_insertAll_iff : key ∈ (insertAll pairs []).map Prod.fst ↔ key ∈ pairs.map Prod.fst := by
  induction pairs using List.reverseRecOn with
  | nil => simp [insertAll]
  | append_singleton pairs pair ih =>
    rw [insertAll_concat, keys_insert, List.map_append, List.mem_append, ← ih]
    split
    · next hm =>
      simp only [List.map_cons, List.map_nil, List.mem_singleton]
      exact ⟨.inl, fun h => h.elim id (· ▸ hm)⟩
    · simp

/-- A new key comes behind those that are there. -/
theorem insert_of_notMem (h : key ∉ held.map Prod.fst) : insert key value held = held ++ [(key, value)] := by
  induction held with
  | nil => rfl
  | cons pair held ih =>
    obtain ⟨k, v⟩ := pair
    simp only [List.map_cons, List.mem_cons, not_or] at h
    rw [insert, if_neg (Ne.symm h.1), ih h.2, List.cons_append]

/-- Pairs of different keys are all there, in the order in which they were written. -/
theorem insertAll_eq_self (h : (pairs.map Prod.fst).Nodup) : insertAll pairs [] = pairs := by
  induction pairs using List.reverseRecOn with
  | nil => rfl
  | append_singleton pairs pair ih =>
    rw [List.map_append, List.nodup_append] at h
    obtain ⟨hn, -, hne⟩ := h
    rw [insertAll_concat, ih hn, insert_of_notMem]
    intro hm
    exact hne pair.1 hm pair.1 (by simp) rfl

end Assoc

end TinyScript
