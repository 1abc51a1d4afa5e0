import TinyScript.Number.Single

/-! # Rounding to single precision

Every operation of this library computes its exact result as a quotient of natural numbers and
rounds it once: to the nearest single precision value, and of two equally near ones to the one of even
rank. A result that rounds past the largest finite value is infinite.
-/

namespace TinyScript.Single

/-- The natural number nearest to `num / den`; of two equally near ones the even one. -/
def roundHalfEven (num den : Nat) : Nat :=
  let quotient := num / den
  let twice := 2 * (num % den)
  if twice < den then quotient
  else if den < twice then quotient + 1
  else quotient + quotient % 2

/-- The rank nearest to `num / den` units. The spacing of ranks there is `2 ^ shift` units, chosen so
that the quotient by it has at most 24 binary digits; a quotient that rounds up to `2 ^ 24` is the first
rank of the next spacing, which the sum gives too. -/
def rankOfRatio (num den : Nat) : Nat :=
  let shift := Nat.log2 (num / den) - 23
  shift * blockSize + roundHalfEven num (den * Nat.pow 2 shift)

/-- The number of a rank, infinite from `infinityRank` on. -/
def ofRank (negative : Bool) (rank : Nat) : Single :=
  if h : rank < infinityRank then .finite negative ⟨rank, h⟩ else .infinite negative

/-- The number nearest to `num / den` units, with a sign. -/
def ofRatio (negative : Bool) (num den : Nat) : Single :=
  ofRank negative (rankOfRatio num den)

/-- The number nearest to a natural number. -/
def ofNat (n : Nat) : Single :=
  ofRatio false (n * unitsPerOne) 1

end TinyScript.Single
