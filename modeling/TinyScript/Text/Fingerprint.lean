/-! # Fingerprints of texts

The fingerprint of a text is a word of 64 bits: what the bytes of its UTF-8 form are hashed to. The hash function is a
parameter of all that a program does, and nothing is asked of it. Different texts may have one fingerprint.
-/

namespace TinyScript

/-- A hash function of bytes. -/
class ByteHash where
  /-- The word that bytes are hashed to. -/
  hash : List UInt8 → UInt64

namespace Text

/-- The bytes of the UTF-8 form of a text. -/
def bytes (text : String) : List UInt8 := text.toList.flatMap String.utf8EncodeChar

/-- The fingerprint of a text. -/
def fingerprint [ByteHash] (text : String) : UInt64 := ByteHash.hash (bytes text)

end Text

end TinyScript
