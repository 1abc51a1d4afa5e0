import TinyScript.Number.Rounding

/-! # Arithmetic

The four operations round the exact result once. Zeros carry signs: a sum that cancels is positive
zero, and a product or quotient takes the sign that its operands' signs give. Dividing by zero gives an
infinity, or a not-a-number for `0 / 0`; nothing here fails.
-/

namespace TinyScript.Single

/-- The sum of two finite numbers of given signs and units. A zero sum is negative only when both
operands are. -/
def addUnits (negative₁ negative₂ : Bool) (units₁ units₂ : Nat) : Single :=
  let total := signed negative₁ units₁ + signed negative₂ units₂
  if total = 0 then signedZero (negative₁ && negative₂)
  else ofRatio (total < 0) total.natAbs 1

/-- The sum. -/
def add : Single → Single → Single
  | .nan, _ => .nan
  | _, .nan => .nan
  | .infinite s, .infinite t => if s = t then .infinite s else .nan
  | .infinite s, .finite .. => .infinite s
  | .finite .., .infinite t => .infinite t
  | .finite s a, .finite t b => addUnits s t (unitsOfRank a) (unitsOfRank b)

/-- The difference: the sum with the opposite. -/
def sub (x y : Single) : Single :=
  x.add y.neg

/-- The product. -/
def mul : Single → Single → Single
  | .nan, _ => .nan
  | _, .nan => .nan
  | .infinite s, .infinite t => .infinite (s ^^ t)
  | .infinite s, .finite t b => if b.val = 0 then .nan else .infinite (s ^^ t)
  | .finite s a, .infinite t => if a.val = 0 then .nan else .infinite (s ^^ t)
  | .finite s a, .finite t b => ofRatio (s ^^ t) (unitsOfRank a * unitsOfRank b) unitsPerOne

/-- The quotient. -/
def div : Single → Single → Single
  | .nan, _ => .nan
  | _, .nan => .nan
  | .infinite _, .infinite _ => .nan
  | .infinite s, .finite t _ => .infinite (s ^^ t)
  | .finite s _, .infinite t => signedZero (s ^^ t)
  | .finite s a, .finite t b =>
    if b.val = 0 then (if a.val = 0 then .nan else .infinite (s ^^ t))
    else ofRatio (s ^^ t) (unitsOfRank a * unitsPerOne) (unitsOfRank b)

end TinyScript.Single
