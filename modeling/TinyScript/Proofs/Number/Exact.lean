import Mathlib.Algebra.Order.Field.Rat
import Mathlib.Tactic.FieldSimp
import Mathlib.Tactic.Linarith
import Mathlib.Tactic.NormNum
import Mathlib.Tactic.Ring
import TinyScript.Proofs.Number.Whole
import TinyScript.Proofs.Number.Words

/-! # Exact values

What an interchange word stands for is a rational number, read off its three fields (`Single.rationalOfWord?`). A finite
number is that many units of `2 ^ -149` (`Single.rational?_ofWord`), which is how this library computes with it. So a
number **names a position exactly if its exact value is that whole number and is not past `2 ^ 24`**
(`Single.toIndex?_eq_some_iff`): a fraction, however small, is not dropped, and no sign but that of a zero.
-/

namespace TinyScript.Single

/-- The exact value of an interchange word. With a full exponent there is none. A fraction counts from `1`, and from `0`
where the exponent is zero, which then has the same power of two as an exponent of one. -/
def rationalOfWord? (word : BitVec 32) : Option ℚ :=
  let sign : ℚ := if word.msb then -1 else 1
  let exponent := (word.extractLsb' 23 8).toNat
  let fraction := (word.extractLsb' 0 23).toNat
  if exponent = 255 then none
  else if exponent = 0 then some (sign * (fraction / 2 ^ 23) * 2 ^ (-126 : ℤ))
  else some (sign * (1 + fraction / 2 ^ 23) * 2 ^ ((exponent : ℤ) - 127))

/-- The exact value of a number, if it is finite. -/
def rational? : Single → Option ℚ
  | .finite negative rank => some (signed negative (unitsOfRank rank) / unitsPerOne)
  | _ => none

variable {x : Single} {i : Nat}

/-- A word without its sign is an exponent and a fraction. -/
theorem rankOfWord_eq (word : BitVec 32) :
    rankOfWord word = (word.extractLsb' 23 8).toNat * blockSize + (word.extractLsb' 0 23).toNat := by
  unfold rankOfWord blockSize
  rw [BitVec.extractLsb'_toNat, BitVec.extractLsb'_toNat, BitVec.toNat_setWidth, Nat.shiftRight_eq_div_pow,
    Nat.shiftRight_zero]
  omega

/-- A word of a finite number is its sign and its rank. -/
theorem ofWord_eq_finite {word : BitVec 32} (h : rankOfWord word < infinityRank) :
    ofWord word = .finite word.msb ⟨rankOfWord word, h⟩ := by
  unfold ofWord ofRank
  rw [if_pos (Nat.le_of_lt h), dif_pos h]

/-- The fields of a word give the units of its number. -/
theorem unitsOfRank_fields {exponent fraction : Nat} (hf : fraction < blockSize) :
    unitsOfRank (exponent * blockSize + fraction) =
      if exponent = 0 then fraction else (blockSize + fraction) * 2 ^ (exponent - 1) := by
  by_cases he : exponent = 0
  · simp [he, unitsOfRank, hf]
  · obtain ⟨shift, rfl⟩ := Nat.exists_eq_succ_of_ne_zero he
    have hr : (shift + 1) * blockSize + fraction = shift * blockSize + (blockSize + fraction) := by
      rw [Nat.succ_mul, Nat.add_assoc]
    rw [hr, unitsOfRank_block (by omega) (by omega), if_neg he]
    rfl

/-- A sign is a factor. -/
theorem cast_signed (negative : Bool) (units : Nat) :
    ((signed negative units : ℤ) : ℚ) = (if negative then -1 else 1) * units := by
  cases negative <;> simp [signed]

theorem cast_unitsPerOne : ((unitsPerOne : Nat) : ℚ) = 2 ^ (149 : ℤ) := by
  rw [unitsPerOne]
  norm_cast

/-- A fraction without an exponent, in units. -/
theorem rational_subnormal (fraction : Nat) :
    (fraction : ℚ) / unitsPerOne = fraction / 2 ^ 23 * 2 ^ (-126 : ℤ) := by
  rw [cast_unitsPerOne, div_mul_eq_mul_div, div_eq_div_iff (by positivity) (by positivity)]
  norm_num
  ring

/-- A fraction behind a leading one, in units. -/
theorem rational_normal (shift fraction : Nat) :
    (((blockSize + fraction) * 2 ^ shift : Nat) : ℚ) / unitsPerOne =
      (1 + fraction / 2 ^ 23) * 2 ^ (((shift + 1 : Nat) : ℤ) - 127) := by
  have hp : (2 : ℚ) ^ (((shift + 1 : Nat) : ℤ) - 127) = 2 ^ shift * 2 ^ (-126 : ℤ) := by
    rw [← zpow_natCast, ← zpow_add₀ two_ne_zero]
    congr 1
    omega
  have hb : ((blockSize : Nat) : ℚ) = 2 ^ 23 := by norm_num [blockSize]
  rw [hp, cast_unitsPerOne, Nat.cast_mul, Nat.cast_add, hb, Nat.cast_pow, Nat.cast_two]
  norm_num
  ring

/-- **A number has the exact value of its word.** -/
theorem rational?_ofWord (word : BitVec 32) : (ofWord word).rational? = rationalOfWord? word := by
  have hr := rankOfWord_eq word
  have he : (word.extractLsb' 23 8).toNat < 256 := (word.extractLsb' 23 8).isLt
  have hf : (word.extractLsb' 0 23).toNat < blockSize := (word.extractLsb' 0 23).isLt
  unfold rationalOfWord?
  dsimp only
  generalize (word.extractLsb' 23 8).toNat = exponent at *
  generalize (word.extractLsb' 0 23).toNat = fraction at *
  by_cases h255 : exponent = 255
  · -- an infinity or a not-a-number
    have hle : infinityRank ≤ rankOfWord word := by
      unfold infinityRank blockSize at *
      omega
    rw [if_pos h255]
    unfold ofWord ofRank
    rw [dif_neg (Nat.not_lt.mpr hle)]
    split <;> rfl
  · have hlt : rankOfWord word < infinityRank := by
      unfold infinityRank blockSize at *
      omega
    rw [if_neg h255, ofWord_eq_finite hlt]
    simp only [rational?, hr, unitsOfRank_fields hf, cast_signed, mul_div_assoc, mul_assoc]
    by_cases h0 : exponent = 0
    · simp only [if_pos h0, rational_subnormal]
    · obtain ⟨shift, rfl⟩ := Nat.exists_eq_succ_of_ne_zero h0
      simp only [if_neg h0, Nat.succ_eq_add_one, Nat.add_sub_cancel, rational_normal]

/-- The exact value is a whole number exactly if it takes that many units and, but for zero, no sign. -/
theorem rational_eq_iff {negative : Bool} {units : Nat} :
    (signed negative units : ℚ) / unitsPerOne = i ↔ units = i * unitsPerOne ∧ (negative = true → units = 0) := by
  have hp : (0 : ℚ) < unitsPerOne := by
    rw [cast_unitsPerOne]
    positivity
  rw [div_eq_iff hp.ne', ← Nat.cast_mul, ← Int.cast_natCast, Int.cast_inj]
  generalize i * unitsPerOne = whole
  cases negative with
  | false => simp [signed]
  | true =>
    simp only [signed, if_true, forall_const]
    omega

/-- **A number names a position exactly if that whole number is its exact value** and is one of those that can be
named. -/
theorem toIndex?_eq_some_iff : x.toIndex? = some i ↔ x.rational? = some (i : ℚ) ∧ i ≤ maxIndex := by
  cases x with
  | nan | infinite => simp [toIndex?, rational?]
  | finite negative rank =>
    have hp : 0 < unitsPerOne := Nat.two_pow_pos 149
    simp only [toIndex?, rational?, Option.some.injEq, rational_eq_iff]
    generalize unitsOfRank rank = units
    constructor
    · intro h
      split at h
      · cases h
      · next hn =>
        split at h
        · next hm =>
          cases h
          simp only [not_or, not_and, not_not] at hn
          exact ⟨⟨(Nat.div_mul_cancel (Nat.dvd_of_mod_eq_zero hn.1)).symm, hn.2⟩, hm⟩
        · cases h
    · rintro ⟨⟨rfl, hs⟩, hm⟩
      have hn : ¬ (i * unitsPerOne % unitsPerOne ≠ 0 ∨ negative = true ∧ i * unitsPerOne ≠ 0) := by
        simp only [Nat.mul_mod_left, ne_eq, not_true_eq_false, false_or, not_and, not_not]
        exact hs
      rw [if_neg hn, Nat.mul_div_cancel i hp, if_pos hm]

end TinyScript.Single
