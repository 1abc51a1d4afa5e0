/-! # Single precision numbers

A finite number is a sign and a **rank**: its place among the non-negative single precision values,
counted from zero. The rank is also the lower 31 bits of the number's interchange word, because that
format orders magnitudes by their bits. The value of a rank is a whole number of units of `2 ^ -149`,
the smallest positive value, so order and equality are order and equality of integers.

There is one not-a-number: no operation of this library can tell two of them apart.
-/

namespace TinyScript

/-- The rank of infinity, one past the largest finite rank. -/
abbrev Single.infinityRank : Nat := 2139095040

/-- A single precision number. -/
inductive Single where
  | nan
  | infinite (negative : Bool)
  | finite (negative : Bool) (rank : Fin Single.infinityRank)
  deriving DecidableEq

namespace Single

/-- Zero with a sign. -/
def signedZero (negative : Bool) : Single := .finite negative ⟨0, by decide⟩

/-- Positive zero. -/
def zero : Single := signedZero false

instance : Inhabited Single := ⟨zero⟩

/-- How many ranks share one spacing: `2 ^ 23`. -/
def blockSize : Nat := 8388608

/-- The value of a rank in units of `2 ^ -149`. The first block of ranks counts units, and so does the
second; each later block doubles the spacing of the block before it. -/
def unitsOfRank (rank : Nat) : Nat :=
  if rank < blockSize then rank
  else (blockSize + rank % blockSize) * Nat.pow 2 (rank / blockSize - 1)

/-- How many units of `2 ^ -149` make one. -/
def unitsPerOne : Nat := Nat.pow 2 149

/-- A magnitude with a sign. -/
def signed (negative : Bool) (units : Nat) : Int :=
  if negative then -(units : Int) else units

/-- Where a number stands on the line of units; infinities stand past every finite number, and a
not-a-number stands nowhere. -/
def position : Single → Option Int
  | .nan => none
  | .infinite negative => some (signed negative (unitsOfRank infinityRank))
  | .finite negative rank => some (signed negative (unitsOfRank rank))

/-- Neither infinite nor a not-a-number. -/
def isFinite : Single → Bool
  | .finite .. => true
  | _ => false

/-- Equal as numbers: the two zeros are equal, and a not-a-number equals nothing. -/
def equal (x y : Single) : Bool :=
  match x.position, y.position with
  | some a, some b => a == b
  | _, _ => false

/-- Strictly below; false when either side is a not-a-number. -/
def less (x y : Single) : Bool :=
  match x.position, y.position with
  | some a, some b => decide (a < b)
  | _, _ => false

/-- Below or equal; false when either side is a not-a-number. -/
def lessEqual (x y : Single) : Bool :=
  match x.position, y.position with
  | some a, some b => decide (a ≤ b)
  | _, _ => false

/-- The opposite number; zeros and infinities change sign too. -/
def neg : Single → Single
  | .nan => .nan
  | .infinite negative => .infinite !negative
  | .finite negative rank => .finite (!negative) rank

/-- The sign bit of the interchange word: `2 ^ 31` when it is set. -/
def signBit (negative : Bool) : Nat :=
  if negative then 2147483648 else 0

/-- The interchange word: a sign bit above the 31 bits of the rank. -/
def bits : Single → Nat
  | .nan => 2143289344
  | .infinite negative => signBit negative + infinityRank
  | .finite negative rank => signBit negative + rank

end Single

end TinyScript
