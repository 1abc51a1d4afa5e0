import TinyScript.Text.Extender
import TinyScript.Text.Ignorable
import TinyScript.Text.Unprintable

/-! # Quoted names

A name is shown between double quotes. The quote and the backslash stand after a backslash, and so do the
letters for the usual control characters. Of the others, those that cannot be seen, or only on the
character before them, are written by their code points.
-/

namespace TinyScript.Text

/-- How a character is written between quotes. -/
def quoteChar (c : Char) : String :=
  if c = '"' then "\\\""
  else if c = '\\' then "\\\\"
  else if c = '\n' then "\\n"
  else if c = '\r' then "\\r"
  else if c = '\t' then "\\t"
  else if c.toNat = 0 then "\\0"
  else if unprintables.contains c || ignorables.contains c || isExtendingMark c then
    "\\u\x7b" ++ String.ofList (Nat.toDigits 16 c.toNat) ++ "\x7d"
  else String.ofList [c]

/-- A text between quotes. -/
def quoted (text : String) : String :=
  "\"" ++ String.join (text.toList.map quoteChar) ++ "\""

end TinyScript.Text
