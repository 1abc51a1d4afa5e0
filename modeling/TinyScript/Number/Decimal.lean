import TinyScript.Number.Rounding

/-! # Decimal text of numbers

A decimal is a sign, a whole number of digits and a power of ten. It is read to the nearest single
precision number directly, with one rounding. Number text is an optional sign, then `inf`, `infinity`
or `nan` in any letter case, or digits with an optional point and an optional exponent; at least one
digit is required, on either side of the point.
-/

namespace TinyScript

/-- The decimal number `± digits · 10 ^ exponent`. -/
structure Decimal where
  negative : Bool
  digits : Nat
  exponent : Int
  deriving DecidableEq

namespace Decimal

/-- The nearest single precision number. The first three cases are what the last one would give, told
from the size of the decimal alone, so that no huge power of ten is computed. -/
def toSingle (d : Decimal) : Single :=
  if d.digits = 0 then .signedZero d.negative
  else if 39 ≤ d.exponent then .infinite d.negative
  else if d.exponent + Nat.log2 d.digits + 47 < 0 then .signedZero d.negative
  else .ofRatio d.negative
    (d.digits * Nat.pow 10 d.exponent.toNat * Single.unitsPerOne) (Nat.pow 10 (-d.exponent).toNat)

end Decimal

/-- The value of a decimal digit. -/
def digitValue (c : Char) : Nat := c.toNat - '0'.toNat

/-- The natural number written by decimal digits, the first one weighing most. -/
def natOfDigits (cs : List Char) : Nat :=
  cs.foldl (fun n c => 10 * n + digitValue c) 0

namespace Decimal

/-- Takes an optional sign off a text: whether it is a minus, and what follows. -/
def splitSign : List Char → Bool × List Char
  | '-' :: rest => (true, rest)
  | '+' :: rest => (false, rest)
  | cs => (false, cs)

/-- Reads what may follow the digits of a number: nothing, or `e` or `E`, an optional sign, and digits. -/
def readExponent? : List Char → Option Int
  | [] => some 0
  | c :: cs =>
    let (negative, ds) := splitSign cs
    if (c = 'e' ∨ c = 'E') ∧ ds ≠ [] ∧ ds.all Char.isDigit then
      some (if negative then -(natOfDigits ds : Int) else natOfDigits ds)
    else none

/-- Reads digits with an optional point and an optional exponent. -/
def readMagnitude? (negative : Bool) (cs : List Char) : Option Decimal :=
  let whole := cs.takeWhile Char.isDigit
  let (fraction, rest) := match cs.dropWhile Char.isDigit with
    | '.' :: more => (more.takeWhile Char.isDigit, more.dropWhile Char.isDigit)
    | more => ([], more)
  if whole = [] ∧ fraction = [] then none
  else (readExponent? rest).map fun e =>
    ⟨negative, natOfDigits (whole ++ fraction), e - fraction.length⟩

end Decimal

/-- Reads number text. -/
def Single.read? (text : String) : Option Single :=
  let (negative, cs) := Decimal.splitSign text.toList
  match String.ofList (cs.map Char.toLower) with
  | "inf" => some (.infinite negative)
  | "infinity" => some (.infinite negative)
  | "nan" => some .nan
  | _ => (Decimal.readMagnitude? negative cs).map Decimal.toSingle

end TinyScript
