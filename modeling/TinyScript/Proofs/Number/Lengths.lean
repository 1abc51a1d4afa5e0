import Mathlib.Order.Monotone.Basic
import TinyScript.Proofs.Number.Exact

/-! # Lengths as numbers

A whole number past `2 ^ 24` is rounded to one of 24 binary digits, so a length past that bound may be given as
another. Larger ranks have larger values (`Single.strictMono_unitsOfRank`), and every whole number from `2 ^ 24 + 2` on
is rounded to one past `2 ^ 24`, which names no position. Between the two there is a single tie: **`2 ^ 24 + 1` is
rounded down to `2 ^ 24`, and names that position** (`Single.toIndex?_ofNat_eq_ite`).
-/

namespace TinyScript.Single

variable {n rank : Nat}

/-- One rank more is a larger value. -/
theorem unitsOfRank_lt_succ (rank : Nat) : unitsOfRank rank < unitsOfRank (rank + 1) := by
  have hb : 0 < blockSize := by decide
  have hf : rank % blockSize < blockSize := Nat.mod_lt _ hb
  rw [← Nat.div_add_mod' rank blockSize]
  generalize rank / blockSize = exponent
  generalize rank % blockSize = fraction at *
  by_cases hl : fraction + 1 < blockSize
  · rw [Nat.add_assoc, unitsOfRank_fields hf, unitsOfRank_fields hl]
    split
    · omega
    · exact Nat.mul_lt_mul_of_pos_right (by omega) (Nat.two_pow_pos _)
  · -- the last fraction: the next rank has the next exponent and no fraction
    have hn : exponent * blockSize + fraction + 1 = (exponent + 1) * blockSize + 0 := by
      rw [Nat.succ_mul]
      omega
    rw [hn, unitsOfRank_fields hf, unitsOfRank_fields hb, if_neg (Nat.succ_ne_zero _), Nat.add_sub_cancel, Nat.add_zero]
    split
    · next he =>
      rw [he]
      omega
    · next he =>
      obtain ⟨shift, rfl⟩ := Nat.exists_eq_succ_of_ne_zero he
      rw [Nat.succ_eq_add_one, Nat.add_sub_cancel, Nat.pow_succ', ← Nat.mul_assoc]
      exact Nat.mul_lt_mul_of_pos_right (by omega) (Nat.two_pow_pos _)

/-- **Larger ranks have larger values.** -/
theorem strictMono_unitsOfRank : StrictMono unitsOfRank :=
  strictMono_nat_of_lt_succ unitsOfRank_lt_succ

/-- The rank of the largest number that names a position. -/
theorem unitsOfRank_maxIndex : unitsOfRank (151 * blockSize) = maxIndex * unitsPerOne :=
  rfl

/-- Past the largest position no number names one. -/
theorem toIndex?_ofRank_of_lt (h : 151 * blockSize < rank) : (ofRank false rank).toIndex? = none := by
  rw [Option.eq_none_iff_forall_ne_some]
  intro i hi
  obtain ⟨he, hm⟩ := toIndex?_eq_some_iff.mp hi
  unfold ofRank at he
  split at he
  · simp only [rational?, Option.some.injEq, rational_eq_iff] at he
    have hlt : maxIndex * unitsPerOne < i * unitsPerOne := by
      rw [← he.1, ← unitsOfRank_maxIndex]
      exact strictMono_unitsOfRank h
    exact absurd (Nat.lt_of_mul_lt_mul_right hlt) (Nat.not_lt.mpr hm)
  · cases he

/-- Rounding does not go below the whole part. -/
theorem div_le_roundHalfEven (num den : Nat) : num / den ≤ roundHalfEven num den := by
  unfold roundHalfEven
  dsimp only
  split
  · exact Nat.le_refl _
  · split
    · exact Nat.le_succ _
    · exact Nat.le_add_right _ _

/-- A whole number of more than 24 binary digits loses those past the first 24. -/
theorem rankOfRatio_whole {k : Nat} (hk : 23 ≤ k) (hn : Nat.log2 n = k) (h0 : n ≠ 0) :
    rankOfRatio (n * unitsPerOne) 1 = (k + 126) * blockSize + roundHalfEven n (2 ^ (k - 23)) := by
  have hp : unitsPerOne = 2 ^ 149 := rfl
  have h1 : 0 < unitsPerOne := Nat.two_pow_pos 149
  have hl : Nat.log2 (n * unitsPerOne) = k + 149 := by
    obtain ⟨hl, hu⟩ := (Nat.log2_eq_iff h0).mp hn
    rw [hp, Nat.log2_eq_iff (Nat.mul_ne_zero h0 (Nat.two_pow_pos _).ne'), Nat.pow_add, Nat.add_right_comm, Nat.pow_add]
    exact ⟨Nat.mul_le_mul_right _ hl, Nat.mul_lt_mul_of_pos_right hu (Nat.two_pow_pos _)⟩
  have hs : 2 ^ (k + 126) = 2 ^ (k - 23) * unitsPerOne := by
    rw [hp, ← Nat.pow_add]
    congr 1
    omega
  unfold rankOfRatio
  simp only [Nat.div_one, Nat.one_mul, hl, Nat.pow_eq]
  rw [show k + 149 - 23 = k + 126 by omega, hs, roundHalfEven_mul_right _ _ h1]

/-- From `2 ^ 24 + 2` on whole numbers are rounded to numbers past `2 ^ 24`. -/
theorem lt_rankOfRatio_whole (h : maxIndex + 1 < n) : 151 * blockSize < rankOfRatio (n * unitsPerOne) 1 := by
  have h0 : n ≠ 0 := Nat.ne_zero_of_lt h
  have hk : 24 ≤ Nat.log2 n := (Nat.le_log2 h0).mpr (by unfold maxIndex at h; omega)
  rw [rankOfRatio_whole (by omega) rfl h0]
  have hq := div_le_roundHalfEven n (2 ^ (Nat.log2 n - 23))
  by_cases h24 : Nat.log2 n = 24
  · rw [h24] at hq ⊢
    unfold maxIndex at h
    unfold blockSize
    omega
  · have hd : 1 ≤ n / 2 ^ (Nat.log2 n - 23) := by
      rw [Nat.le_div_iff_mul_le (Nat.two_pow_pos _), Nat.one_mul]
      exact Nat.le_trans (Nat.pow_le_pow_right (by decide) (Nat.sub_le _ _)) (Nat.log2_self_le h0)
    unfold blockSize
    omega

/-- **A length names its own position up to `2 ^ 24`, and none past `2 ^ 24 + 1`**; that one is rounded to `2 ^ 24`. -/
theorem toIndex?_ofNat_eq_ite (n : Nat) :
    (ofNat n).toIndex? =
      if n ≤ 2 ^ 24 then some n else if n = 2 ^ 24 + 1 then some (2 ^ 24) else none := by
  split
  · next h => exact toIndex?_ofNat h
  · next h =>
    split
    · next he =>
      subst he
      rfl
    · next hne =>
      have hlt : maxIndex + 1 < n := by
        unfold maxIndex
        omega
      exact toIndex?_ofRank_of_lt (lt_rankOfRatio_whole hlt)

/-- Of the non-negative numbers zero alone is equal to zero. -/
theorem eq_zero_of_equal_zero {rank : Nat} (h : (ofRank false rank).equal .zero = true) :
    ofRank false rank = .zero := by
  unfold ofRank at h ⊢
  split at h
  · next hr =>
    obtain rfl := (equal_zero_iff rfl).mp h
    rw [dif_pos hr]
    rfl
  · have hi : (infinite false).equal .zero = false := rfl
    rw [hi] at h
    cases h

/-- **Of nothing but the empty the length is equal to zero**, however lengths are rounded. -/
theorem equal_ofNat_zero_iff (n : Nat) : (ofNat n).equal .zero = true ↔ n = 0 := by
  constructor
  · intro h
    have hz : ofNat n = .zero := eq_zero_of_equal_zero h
    have hi := toIndex?_ofNat_eq_ite n
    rw [hz, show zero.toIndex? = some 0 from rfl] at hi
    split at hi
    · exact (Option.some.inj hi).symm
    · split at hi
      · cases Option.some.inj hi
      · cases hi
  · rintro rfl
    rfl

end TinyScript.Single
