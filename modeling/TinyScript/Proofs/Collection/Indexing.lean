import TinyScript.Evaluation.Collection
import TinyScript.Evaluation.Completion
import TinyScript.Proofs.Number.Lengths

/-! # Indexing by numbers

An array is indexed by a number, and numbers are more than positions: fractions, negative numbers, infinities and the
not-a-number give null like positions past the end. **Indexing is exact for every number** (`Object.index_exact`): an
element is given only where the exact value of the number is its position. A length is a number too, but a rounded one
where it is large. **Two lengths alone are not told apart** (`Object.index_length`): `2 ^ 24 + 1` indexes as `2 ^ 24`
does, and no other length past `2 ^ 24` names an element.
-/

namespace TinyScript

open Evaluation

/-- What an array holds at an exact value: the element at that position, if it is one of the array's and not past
`2 ^ 24`, and null otherwise. -/
inductive Object.StandsAt (elements : List Object) (value? : Option ℚ) : Object → Prop where
  | element {i : Nat} (hv : value? = some (i : ℚ)) (hm : i ≤ 2 ^ 24) (hi : i < elements.length) :
      StandsAt elements value? elements[i]
  | nothing (h : ∀ i : Nat, value? = some (i : ℚ) → 2 ^ 24 < i ∨ elements.length ≤ i) :
      StandsAt elements value? .null

variable {elements : List Object} {number : Single} {i : Nat}

/-- A number that names a position stands for what is there. -/
theorem Object.elementAt_of_toIndex? (h : number.toIndex? = some i) :
    Object.elementAt elements number = elements[i]?.getD .null := by
  unfold Object.elementAt
  rw [h, Option.bind_some]

/-- **What a number stands for in an array is what is at its exact value.** -/
theorem Object.standsAt_elementAt (elements : List Object) (number : Single) :
    Object.StandsAt elements number.rational? (Object.elementAt elements number) := by
  cases h : number.toIndex? with
  | none =>
    have he : Object.elementAt elements number = .null := by simp [Object.elementAt, h]
    rw [he]
    refine .nothing fun i hv => .inl (Nat.lt_of_not_le fun hm => ?_)
    rw [Single.toIndex?_eq_some_iff.mpr ⟨hv, hm⟩] at h
    cases h
  | some i =>
    obtain ⟨hv, hm⟩ := Single.toIndex?_eq_some_iff.mp h
    rw [Object.elementAt_of_toIndex? h]
    by_cases hi : i < elements.length
    · rw [List.getElem?_eq_getElem hi]
      exact .element hv hm hi
    · rw [List.getElem?_eq_none (Nat.le_of_not_lt hi)]
      refine .nothing fun j hj => .inr ?_
      obtain rfl : i = j := by
        exact_mod_cast Option.some.inj (hv.symm.trans hj)
      exact Nat.le_of_not_lt hi

/-- **Indexing an array is exact for every number.** It never fails and makes nothing; what it gives stands at the exact
value of the word. A word is taken for a position exactly if its value is that position, so nothing is cut off or goes
round, and the bound that positions are compared with is a number without rounding. -/
theorem Object.index_exact [ByteHash] (id id' : Nat) (elements : List Object) (word : BitVec 32) :
    (∃ object, Object.StandsAt elements (Single.rationalOfWord? word) object ∧
      ∀ line store, ofExcept line (Object.index ⟨id, .array elements⟩ ⟨id', .number (.ofWord word)⟩) store =
        some (.normal object, store)) ∧
    (∀ i, (Single.ofWord word).toIndex? = some i ↔ Single.rationalOfWord? word = some (i : ℚ) ∧ i ≤ 2 ^ 24) ∧
    (Single.ofNat (2 ^ 24)).rational? = some (2 ^ 24) := by
  refine ⟨⟨Object.elementAt elements (.ofWord word), ?_, fun line store => rfl⟩, fun i => ?_, ?_⟩
  · rw [← Single.rational?_ofWord]
    exact Object.standsAt_elementAt elements (.ofWord word)
  · rw [← Single.rational?_ofWord]
    exact Single.toIndex?_eq_some_iff
  · have hi := Single.toIndex?_eq_some_iff.mp (Single.toIndex?_ofNat (Nat.le_refl Single.maxIndex))
    exact_mod_cast hi.1

/-- **A length names its own position up to `2 ^ 24`, and no position from `2 ^ 24 + 2` on.** Between them `2 ^ 24 + 1`
is rounded to `2 ^ 24`. So but for that one no length names an element that does not stand there. -/
theorem Object.index_length [ByteHash] (n : Nat) :
    (Single.ofNat n).toIndex? =
        (if n ≤ 2 ^ 24 then some n else if n = 2 ^ 24 + 1 then some (2 ^ 24) else none) ∧
      ∀ id id' elements, Object.index ⟨id, .array elements⟩ ⟨id', .number (.ofNat n)⟩ =
        .ok (if n ≤ 2 ^ 24 then elements[n]?.getD .null
          else if n = 2 ^ 24 + 1 then elements[2 ^ 24]?.getD .null else .null) := by
  have hn := Single.toIndex?_ofNat_eq_ite n
  refine ⟨hn, fun id id' elements => ?_⟩
  show Except.ok (Object.elementAt elements (.ofNat n)) = _
  unfold Object.elementAt
  rw [hn]
  split
  · rfl
  · split <;> rfl

/-- Not every length past `2 ^ 24` is refused. -/
theorem Object.exists_length_aliased :
    ¬ ∀ n < 2 ^ 64, (Single.ofNat n).toIndex? = if n ≤ 2 ^ 24 then some n else none := by
  intro h
  have hn := h (2 ^ 24 + 1) (by decide)
  rw [Single.toIndex?_ofNat_eq_ite] at hn
  simp at hn

end TinyScript
