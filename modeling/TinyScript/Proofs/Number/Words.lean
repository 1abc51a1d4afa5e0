import TinyScript.Proofs.Number.Reading

/-! # Interchange words

A single precision number is exchanged as a word of 32 bits: a sign, eight bits of an exponent and 23 bits of a
fraction. Every word stands for a number (`Single.ofWord`), and every number but a not-a-number for one word
(`Single.bits_ofWord`, `Single.ofWord_bits`); all words with a full exponent and a fraction stand for the
not-a-number.

Without the sign a word is a rank, so comparing numbers is comparing signs and ranks: **two numbers are equal
exactly if they have one rank, and one sign unless they are zeros** (`Single.equal_iff`).
-/

namespace TinyScript.Single

/-- Whether the exponent of a word is full and its fraction is not zero. -/
def IsNanWord (word : BitVec 32) : Prop :=
  word.extractLsb' 23 8 = 255#8 ∧ word.extractLsb' 0 23 ≠ 0#23

/-- A word without its sign. -/
def rankOfWord (word : BitVec 32) : Nat := (word.setWidth 31).toNat

/-- The number that a word stands for. -/
def ofWord (word : BitVec 32) : Single :=
  if rankOfWord word ≤ infinityRank then ofRank word.msb (rankOfWord word) else .nan

/-- The sign and the rank of a number. The rank of an infinity is the one past the largest finite rank. -/
def signRank? : Single → Option (Bool × Nat)
  | .nan => none
  | .infinite negative => some (negative, infinityRank)
  | .finite negative rank => some (negative, rank)

variable {x y : Single} {s t : Bool} {rank : Nat}

theorem signRank?_eq_none_iff : x.signRank? = none ↔ x = .nan := by
  cases x <;> simp [signRank?]

theorem rank_le_of_signRank? (h : x.signRank? = some (s, rank)) : rank ≤ infinityRank := by
  cases x with
  | nan => cases h
  | infinite =>
    cases h
    exact Nat.le_refl _
  | finite _ r =>
    cases h
    exact Nat.le_of_lt r.isLt

/-- A number is its sign and its rank. -/
theorem eq_ofRank_of_signRank? (h : x.signRank? = some (s, rank)) : x = ofRank s rank := by
  unfold ofRank
  cases x with
  | nan => cases h
  | infinite =>
    cases h
    rw [dif_neg (Nat.lt_irrefl _)]
  | finite _ r =>
    cases h
    rw [dif_pos r.isLt]

/-- A number is its sign and its rank, infinity included. -/
theorem signRank?_ofRank (h : rank ≤ infinityRank) : (ofRank s rank).signRank? = some (s, rank) := by
  unfold ofRank
  split
  · rfl
  · next hr =>
    rw [Nat.le_antisymm h (Nat.le_of_not_lt hr)]
    rfl

/-- The word of a number is its rank under its sign bit. -/
theorem bits_of_signRank? (h : x.signRank? = some (s, rank)) : x.bits = signBit s + rank := by
  cases x with
  | nan => cases h
  | infinite =>
    cases h
    rfl
  | finite =>
    cases h
    rfl

/-! ## Words -/

/-- The words above infinity are those that stand for no number. -/
theorem isNanWord_iff {word : BitVec 32} : IsNanWord word ↔ infinityRank < rankOfWord word := by
  unfold IsNanWord infinityRank rankOfWord
  rw [← BitVec.toNat_inj, ne_eq, ← BitVec.toNat_inj, BitVec.extractLsb'_toNat, BitVec.extractLsb'_toNat,
    BitVec.toNat_setWidth, Nat.shiftRight_eq_div_pow, BitVec.toNat_ofNat, BitVec.toNat_ofNat]
  omega

/-- The words of the not-a-number. -/
theorem ofWord_eq_nan_iff {word : BitVec 32} : ofWord word = .nan ↔ IsNanWord word := by
  rw [isNanWord_iff, ← signRank?_eq_none_iff]
  unfold ofWord
  split
  · next h => simp only [signRank?_ofRank h, reduceCtorEq, Nat.not_lt.mpr h]
  · next h => simp only [signRank?, Nat.lt_of_not_le h]

theorem signRank?_ofWord {word : BitVec 32} (h : ¬ IsNanWord word) :
    (ofWord word).signRank? = some (word.msb, rankOfWord word) := by
  have hr : rankOfWord word ≤ infinityRank := Nat.le_of_not_lt fun hl => h (isNanWord_iff.mpr hl)
  unfold ofWord
  rw [if_pos hr, signRank?_ofRank hr]

/-- A word that is not one of the not-a-number is the word of the number that it stands for. -/
theorem bits_ofWord {word : BitVec 32} (h : ¬ IsNanWord word) : (ofWord word).bits = word.toNat := by
  rw [bits_of_signRank? (signRank?_ofWord h), BitVec.msb_eq_decide, rankOfWord, BitVec.toNat_setWidth]
  have hw := word.isLt
  by_cases hs : 2 ^ 31 ≤ word.toNat
  · rw [decide_eq_true hs]
    show 2147483648 + word.toNat % 2 ^ 31 = word.toNat
    omega
  · rw [decide_eq_false hs]
    show 0 + word.toNat % 2 ^ 31 = word.toNat
    omega

/-- Every number is what its word stands for. -/
theorem ofWord_bits (x : Single) : ofWord (BitVec.ofNat 32 x.bits) = x := by
  cases h : x.signRank? with
  | none =>
    rw [signRank?_eq_none_iff.mp h]
    decide
  | some parts =>
    obtain ⟨s, rank⟩ := parts
    have hr := rank_le_of_signRank? h
    rw [bits_of_signRank? h, eq_ofRank_of_signRank? h]
    unfold ofWord rankOfWord infinityRank at *
    rw [BitVec.msb_eq_decide, BitVec.toNat_setWidth, BitVec.toNat_ofNat]
    cases s with
    | false =>
      have hm : (signBit false + rank) % 2 ^ 32 = rank := by
        show (0 + rank) % 2 ^ 32 = rank
        omega
      rw [hm, Nat.mod_eq_of_lt (by omega), if_pos hr, decide_eq_false (by omega)]
    | true =>
      have hm : (signBit true + rank) % 2 ^ 32 = 2 ^ 31 + rank := by
        show (2147483648 + rank) % 2 ^ 32 = 2 ^ 31 + rank
        omega
      rw [hm, Nat.add_mod_left, Nat.mod_eq_of_lt (by omega), if_pos hr, decide_eq_true (by omega)]

/-! ## Equality -/

/-- No two ranks have the same magnitude. -/
theorem unitsOfRank_inj {rank other : Nat} : unitsOfRank rank = unitsOfRank other ↔ rank = other := by
  refine ⟨fun h => ?_, congrArg unitsOfRank⟩
  rw [← rankOfRatio_unitsOfRank rank, h, rankOfRatio_unitsOfRank]

theorem unitsOfRank_eq_zero_iff : unitsOfRank rank = 0 ↔ rank = 0 :=
  @unitsOfRank_inj rank 0

/-- The two zeros are at one place. -/
theorem signed_inj {a b : Nat} : signed s a = signed t b ↔ a = b ∧ (s = t ∨ a = 0) := by
  cases s <;> cases t <;> simp [signed] <;> omega

theorem position_eq (x : Single) : x.position = x.signRank?.map fun p => signed p.1 (unitsOfRank p.2) := by
  cases x <;> rfl

/-- **Numbers are equal exactly if they have one rank, and one sign unless the rank is that of zeros.** -/
theorem equal_iff : x.equal y = true ↔
    ∃ s t rank, x.signRank? = some (s, rank) ∧ y.signRank? = some (t, rank) ∧ (s = t ∨ rank = 0) := by
  unfold equal
  rw [position_eq, position_eq]
  cases x.signRank? with
  | none => simp
  | some p =>
    cases y.signRank? with
    | none => simp
    | some q =>
      obtain ⟨s, a⟩ := p
      obtain ⟨t, b⟩ := q
      simp only [Option.map_some, beq_iff_eq, signed_inj, unitsOfRank_inj, unitsOfRank_eq_zero_iff,
        Option.some.injEq, Prod.mk.injEq]
      constructor
      · rintro ⟨rfl, h⟩
        exact ⟨s, t, a, ⟨rfl, rfl⟩, ⟨rfl, rfl⟩, h⟩
      · rintro ⟨_, _, _, ⟨rfl, rfl⟩, ⟨rfl, rfl⟩, h⟩
        exact ⟨rfl, h⟩

/-- A number is equal to zero exactly if its rank is that of zeros. -/
theorem equal_zero_iff (h : x.signRank? = some (s, rank)) : x.equal .zero = true ↔ rank = 0 := by
  rw [equal_iff]
  constructor
  · rintro ⟨_, _, _, h', hz, _⟩
    cases hz
    rw [h] at h'
    cases h'
    rfl
  · rintro rfl
    exact ⟨s, false, 0, h, rfl, .inr rfl⟩

/-- Two words that stand for equal numbers are those of the two zeros. -/
theorem exists_signedZero_of_equal {word other : BitVec 32} (hne : word ≠ other)
    (h : (ofWord word).equal (ofWord other) = true) :
    ∃ negative, ofWord word = signedZero negative ∧ ofWord other = signedZero !negative := by
  obtain ⟨s, t, rank, hx, hy, he⟩ := equal_iff.mp h
  have hw : ¬ IsNanWord word := fun hn => by
    rw [ofWord_eq_nan_iff.mpr hn] at hx
    cases hx
  have ho : ¬ IsNanWord other := fun hn => by
    rw [ofWord_eq_nan_iff.mpr hn] at hy
    cases hy
  have hst : s ≠ t := by
    rintro rfl
    refine hne (BitVec.eq_of_toNat_eq ?_)
    rw [← bits_ofWord hw, ← bits_ofWord ho, bits_of_signRank? hx, bits_of_signRank? hy]
  obtain rfl : rank = 0 := he.resolve_left hst
  obtain rfl : t = !s := by
    cases s <;> cases t <;> simp at hst ⊢
  exact ⟨s, eq_ofRank_of_signRank? hx, eq_ofRank_of_signRank? hy⟩

end TinyScript.Single
