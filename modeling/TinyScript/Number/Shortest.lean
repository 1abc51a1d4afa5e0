import TinyScript.Number.Decimal

/-! # Shortest text of numbers

A finite number is written with the fewest decimal digits that read back as the same number, and of
those nearest to it. The digits of a decimal with exponent `e` lie on the grid of multiples of `10 ^ e`,
and fewer digits is a coarser grid, so the grids are tried from the coarsest down. On one grid only the
two neighbours of the value can be nearest. Of two equally near ones the upper is written.

Text is always positional: no exponent, no point in a whole number, no zero at the end of a fraction.
-/

namespace TinyScript

namespace Decimal

/-- The digits of a decimal in positional notation: whole part, and fraction without trailing zeros. -/
def positional (digits : Nat) (exponent : Int) : String :=
  if 0 ≤ exponent then Nat.repr (digits * Nat.pow 10 exponent.toNat)
  else
    let places := (-exponent).toNat
    let fraction := Nat.toDigits 10 (digits % Nat.pow 10 places)
    let padded := List.replicate (places - fraction.length) '0' ++ fraction
    let kept := (padded.reverse.dropWhile (· == '0')).reverse
    let whole := Nat.repr (digits / Nat.pow 10 places)
    if kept = [] then whole else whole ++ "." ++ String.ofList kept

/-- The text of a decimal. -/
def render (d : Decimal) : String :=
  (if d.negative then "-" else "") ++ positional d.digits d.exponent

end Decimal

namespace Single

/-- The coarsest grid that a number is looked for on: every finite number is below `10 ^ 39`. -/
def coarsestGrid : Int := 38

/-- How many grids are tried. -/
def gridCount : Nat := 85

/-- The neighbour of a magnitude on the grid `10 ^ exponent` that reads back as `x`, the nearer one if
both do, and the upper one if both are equally near. -/
def onGrid? (x : Single) (units : Nat) (exponent : Int) : Option Nat :=
  let num := units * Nat.pow 10 (-exponent).toNat
  let den := unitsPerOne * Nat.pow 10 exponent.toNat
  let below := num / den
  let reads (digits : Nat) : Bool := (Decimal.mk false digits exponent).toSingle == x
  match reads below, reads (below + 1) with
  | true, true => some (if 2 * (num % den) < den then below else below + 1)
  | true, false => some below
  | false, true => some (below + 1)
  | false, false => none

/-- Tries `count` grids from `10 ^ exponent` down. A number found on none of them is written in full:
`units · 2 ^ -149` is `units · 5 ^ 149 · 10 ^ -149`. -/
def shortestFrom (x : Single) (units : Nat) : Nat → Int → Nat × Int
  | 0, _ => (units * Nat.pow 5 149, -149)
  | count + 1, exponent =>
    match x.onGrid? units exponent with
    | some digits => (digits, exponent)
    | none => shortestFrom x units count (exponent - 1)

/-- The shortest decimal of a finite number. -/
def shortest (negative : Bool) (rank : Fin infinityRank) : Decimal :=
  if rank.val = 0 then ⟨negative, 0, 0⟩
  else
    let (digits, exponent) :=
      shortestFrom (.finite false rank) (unitsOfRank rank) gridCount coarsestGrid
    ⟨negative, digits, exponent⟩

/-- The text of a number. -/
def render : Single → String
  | .nan => "NaN"
  | .infinite negative => if negative then "-inf" else "inf"
  | .finite negative rank => (shortest negative rank).render

end Single

end TinyScript
