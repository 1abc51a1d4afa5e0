import TinyScript.Text.CodeSet

/-! # Blank text

The characters that the Unicode property `White_Space` holds, and texts of nothing else.
-/

namespace TinyScript.Text

/-- The characters with the property `White_Space`. -/
def blanks : CodeSet where
  ranges := [
    (0x9, 0xD), (0x20, 0x20), (0x85, 0x85), (0xA0, 0xA0), (0x1680, 0x1680), (0x2000, 0x200A),
    (0x2028, 0x2029), (0x202F, 0x202F), (0x205F, 0x205F), (0x3000, 0x3000)]

/-- Whether a text is empty or holds only blank characters. -/
def isBlank (text : String) : Bool :=
  text.toList.all blanks.contains

end TinyScript.Text
