import TinyScript.Text.Fingerprint

/-! # The Fx hash

The hash function that programs are run with: the 64-bit Fx hash of bytes that are written to a new hasher at once. Two
words mixed with constants take the bytes in, sixteen at a time, and are folded into one at the end. This word is
multiplied by an odd constant, and the bits of the product are rotated.
-/

namespace TinyScript.Fx

/-- The word that bytes stand for, the first one weighing least. -/
def wordOfBytes : List UInt8 → UInt64
  | [] => 0
  | byte :: rest => byte.toUInt64 + 256 * wordOfBytes rest

/-- The two halves of the product of two words, one laid over the other. -/
def foldProduct (a b : UInt64) : UInt64 :=
  let product := a.toNat * b.toNat
  product.toUInt64 ^^^ (product >>> 64).toUInt64

/-- Two words that take in bytes. -/
structure Lanes where
  first : UInt64
  second : UInt64

namespace Lanes

/-- The words before any byte is taken in. -/
def initial : Lanes := ⟨0x243F6A8885A308D3, 0x13198A2E03707344⟩

/-- Takes in one word on each side. -/
def blend (lanes : Lanes) (a b : UInt64) : Lanes := ⟨lanes.first ^^^ a, lanes.second ^^^ b⟩

/-- Takes in blocks of sixteen bytes, as many as are said. -/
def takeBlocks (lanes : Lanes) : Nat → List UInt8 → Lanes
  | 0, _ => lanes
  | blocks + 1, rest =>
    let low := wordOfBytes (rest.take 8)
    let high := wordOfBytes ((rest.drop 8).take 8)
    let mixed := foldProduct (lanes.first ^^^ low) (0xA4093822299F31D0 ^^^ high)
    takeBlocks ⟨lanes.second, mixed⟩ blocks (rest.drop 16)

/-- Takes in at most sixteen bytes: two words from the two ends, which may overlap, or, of fewer than four
bytes, the first one, the middle one and the last one. -/
def takeShort (lanes : Lanes) (short : List UInt8) : Lanes :=
  let size := short.length
  let ends (width : Nat) :=
    lanes.blend (wordOfBytes (short.take width)) (wordOfBytes (short.drop (size - width)))
  if 8 ≤ size then ends 8
  else if 4 ≤ size then ends 4
  else
    lanes.blend (wordOfBytes (short.take 1))
      (wordOfBytes ((short.drop (size / 2)).take 1 ++ short.drop (size - 1)))

/-- Takes in any number of bytes: whole blocks as long as more than sixteen bytes are left, and then the
last sixteen bytes, some of which may have been taken in before. -/
def takeBytes (lanes : Lanes) (all : List UInt8) : Lanes :=
  if all.length ≤ 16 then lanes.takeShort all
  else (lanes.takeBlocks ((all.length - 1) / 16) all).takeShort (all.drop (all.length - 16))

end Lanes

/-- The word that bytes are folded into. -/
def fold (bytes : List UInt8) : UInt64 :=
  let lanes := Lanes.initial.takeBytes bytes
  foldProduct lanes.first lanes.second ^^^ bytes.length.toUInt64

/-- The Fx hash of bytes: they are folded into a word, which a new hasher multiplies by its constant, and when it is
finished the product is rotated by 26 bits. -/
def hash (bytes : List UInt8) : UInt64 :=
  let product := fold bytes * 0xF1357AEA2E62A9C5
  product <<< 26 ||| product >>> 38

/-- The hash function that programs are run with. -/
instance : ByteHash := ⟨hash⟩

end TinyScript.Fx
