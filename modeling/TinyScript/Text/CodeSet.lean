/-! # Sets of characters

A set of characters is given by the ranges of their code points, in ascending order. As the ranges ascend,
a search ends at the first one that begins past what is sought, and still finds all that is in some range
(`CodeSet.contains_iff`).
-/

namespace TinyScript.Text

/-- Whether no range is empty, and each begins past the one before it and not below a bound. -/
def ascend : Nat → List (Nat × Nat) → Bool
  | _, [] => true
  | bound, (first, last) :: ranges =>
    decide (bound ≤ first) && decide (first ≤ last) && ascend (last + 1) ranges

/-- A set of characters. -/
structure CodeSet where
  /-- The first and the last code point of each range. -/
  ranges : List (Nat × Nat)
  ascending : ascend 0 ranges = true := by decide +kernel

namespace CodeSet

/-- Whether a code point is in one of some ranges that ascend. -/
def holds : List (Nat × Nat) → Nat → Bool
  | [], _ => false
  | (first, last) :: ranges, code =>
    decide (first ≤ code) && (decide (code ≤ last) || holds ranges code)

/-- Whether a character is in a set. -/
def contains (set : CodeSet) (c : Char) : Bool := holds set.ranges c.toNat

/-- Ranges that ascend stay at or above their bound. -/
theorem le_of_ascend {bound : Nat} {ranges : List (Nat × Nat)} (h : ascend bound ranges = true)
    {range : Nat × Nat} (hr : range ∈ ranges) : bound ≤ range.1 := by
  induction ranges generalizing bound with
  | nil => cases hr
  | cons head ranges ih =>
    simp only [ascend, Bool.and_eq_true, decide_eq_true_eq] at h
    cases hr with
    | head => exact h.1.1
    | tail _ hr => exact Nat.le_trans h.1.1 (Nat.le_trans h.1.2 (Nat.le_of_lt (ih h.2 hr)))

/-- In ranges that ascend none behind one that begins past the code holds it. -/
theorem holds_iff {bound : Nat} {ranges : List (Nat × Nat)} (h : ascend bound ranges = true)
    (code : Nat) :
    holds ranges code = true ↔ ∃ range ∈ ranges, range.1 ≤ code ∧ code ≤ range.2 := by
  induction ranges generalizing bound with
  | nil => simp only [holds, Bool.false_eq_true, List.not_mem_nil, false_and, exists_false]
  | cons head ranges ih =>
    simp only [ascend, Bool.and_eq_true, decide_eq_true_eq] at h
    simp only [holds, Bool.and_eq_true, Bool.or_eq_true, decide_eq_true_eq, ih h.2,
      List.mem_cons, exists_eq_or_imp]
    constructor
    · rintro ⟨hfirst, hlast | hrest⟩
      · exact .inl ⟨hfirst, hlast⟩
      · exact .inr hrest
    · rintro (⟨hfirst, hlast⟩ | ⟨range, hr, hin⟩)
      · exact ⟨hfirst, .inl hlast⟩
      · have hnext : head.2 + 1 ≤ range.1 := le_of_ascend h.2 hr
        exact ⟨by omega, .inr ⟨range, hr, hin⟩⟩

/-- A set holds the characters of its ranges and no others. -/
theorem contains_iff (set : CodeSet) (c : Char) :
    set.contains c = true ↔ ∃ range ∈ set.ranges, range.1 ≤ c.toNat ∧ c.toNat ≤ range.2 :=
  holds_iff set.ascending c.toNat

end CodeSet

end TinyScript.Text
