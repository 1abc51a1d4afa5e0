import TinyScript.Number.Index
import TinyScript.Proofs.Number.Reading

/-! # Whole numbers in single precision

Single precision has 24 binary digits, so every whole number up to `2 ^ 24` is one of its values, and not rounded
(`Single.exists_ofNat`). These are the numbers that name positions: **a position up to there is named by its own number**
(`Single.toIndex?_ofNat`).
-/

namespace TinyScript.Single

variable {n : Nat}

/-- The values of ranks past the first block are those of 24 binary digits, with any number of zeros behind them. -/
theorem unitsOfRank_block {digits : Nat} (hl : blockSize ≤ digits) (hu : digits < 2 * blockSize) (shift : Nat) :
    unitsOfRank (shift * blockSize + digits) = digits * Nat.pow 2 shift := by
  have hd : (shift * blockSize + digits) / blockSize = shift + 1 := by
    unfold blockSize at *
    omega
  have hm : (shift * blockSize + digits) % blockSize = digits - blockSize := by
    unfold blockSize at *
    omega
  unfold unitsOfRank
  rw [if_neg (by unfold blockSize at *; omega), hd, hm, Nat.add_sub_cancel, Nat.add_sub_cancel' hl]

/-- A whole number up to `2 ^ 24` has 24 binary digits at most. -/
theorem exists_digits (hn : n ≠ 0) (h : n ≤ maxIndex) : ∃ digits shift, blockSize ≤ digits ∧ digits < 2 * blockSize ∧
    shift ≤ 150 ∧ digits * Nat.pow 2 shift = n * unitsPerOne := by
  by_cases hm : n = maxIndex
  · subst hm
    exact ⟨blockSize, 150, Nat.le_refl _, by decide, Nat.le_refl _, by decide +kernel⟩
  · have hlt : n < 2 ^ 24 := Nat.lt_of_le_of_ne h hm
    have hk : Nat.log2 n < 24 := (Nat.log2_lt hn).mpr hlt
    obtain ⟨rest, hr⟩ := Nat.exists_eq_add_of_le (Nat.le_of_lt_succ hk)
    obtain ⟨hl, hu⟩ := (Nat.log2_eq_iff hn).mp rfl
    have hb : blockSize = 2 ^ Nat.log2 n * 2 ^ rest := by
      rw [← Nat.pow_add, ← hr]
      rfl
    refine ⟨n * 2 ^ rest, 126 + Nat.log2 n, ?_, ?_, by omega, ?_⟩
    · rw [hb]
      exact Nat.mul_le_mul_right _ hl
    · rw [hb, ← Nat.mul_assoc, Nat.mul_comm 2, ← Nat.pow_succ]
      exact Nat.mul_lt_mul_of_pos_right hu (Nat.two_pow_pos rest)
    · rw [Nat.pow_eq, Nat.mul_assoc, ← Nat.pow_add, show rest + (126 + Nat.log2 n) = 149 by omega]
      rfl

/-- Whole numbers up to `2 ^ 24` are not rounded. -/
theorem exists_ofNat (h : n ≤ maxIndex) :
    ∃ rank : Fin infinityRank, ofNat n = .finite false rank ∧ unitsOfRank rank = n * unitsPerOne := by
  have hu : ∃ rank : Fin infinityRank, unitsOfRank rank = n * unitsPerOne := by
    by_cases hn : n = 0
    · subst hn
      exact ⟨⟨0, by decide⟩, by rw [Nat.zero_mul]; rfl⟩
    · obtain ⟨digits, shift, hl, hu, hs, he⟩ := exists_digits hn h
      refine ⟨⟨shift * blockSize + digits, ?_⟩, (unitsOfRank_block hl hu shift).trans he⟩
      unfold blockSize infinityRank at *
      omega
  obtain ⟨rank, hu⟩ := hu
  refine ⟨rank, ?_, hu⟩
  unfold ofNat
  rw [← hu, ofRatio_unitsOfRank]

/-- **A position that can be named is named by its own number.** -/
theorem toIndex?_ofNat (h : n ≤ maxIndex) : (ofNat n).toIndex? = some n := by
  obtain ⟨rank, hr, hu⟩ := exists_ofNat h
  have hp : 0 < unitsPerOne := by decide +kernel
  rw [hr]
  unfold toIndex?
  dsimp only
  rw [hu, Nat.mul_mod_left, Nat.mul_div_cancel n hp]
  simp [h]

/-- The number of a whole number stands where it should. -/
theorem position_ofNat (h : n ≤ maxIndex) : (ofNat n).position = some (n * unitsPerOne : Nat) := by
  obtain ⟨rank, hr, hu⟩ := exists_ofNat h
  rw [hr, ← hu]
  rfl

end TinyScript.Single
