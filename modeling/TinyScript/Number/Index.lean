import TinyScript.Number.Single

/-! # Numbers as positions

A number names a position of a sequence when it is a whole number from `0` to `2 ^ 24`. Past that
bound neighbouring whole numbers share a single precision value, so no larger number names a position.
-/

namespace TinyScript.Single

/-- The largest position a number can name. -/
def maxIndex : Nat := 16777216

/-- The position a number names, if it names one; negative zero names position `0`. -/
def toIndex? : Single → Option Nat
  | .finite negative rank =>
    let units := unitsOfRank rank
    if units % unitsPerOne ≠ 0 ∨ (negative ∧ units ≠ 0) then none
    else if units / unitsPerOne ≤ maxIndex then some (units / unitsPerOne)
    else none
  | _ => none

end TinyScript.Single
