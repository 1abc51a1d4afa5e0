import TinyScript.Text.CodeSet

/-! # Ignorable characters

The characters that a reader is not to see, whatever their category: besides format characters and
variation selectors these are the letters that fill an empty place in a Korean syllable.
-/

namespace TinyScript.Text

/-- The characters with the property `Default_Ignorable_Code_Point` in Unicode 17. -/
def ignorables : CodeSet where
  ranges := [
    (0xAD, 0xAD), (0x34F, 0x34F), (0x61C, 0x61C), (0x115F, 0x1160), (0x17B4, 0x17B5),
    (0x180B, 0x180F), (0x200B, 0x200F), (0x202A, 0x202E), (0x2060, 0x206F), (0x3164, 0x3164),
    (0xFE00, 0xFE0F), (0xFEFF, 0xFEFF), (0xFFA0, 0xFFA0), (0xFFF0, 0xFFF8), (0x1BCA0, 0x1BCA3),
    (0x1D173, 0x1D17A), (0xE0000, 0xE0FFF)]

end TinyScript.Text
