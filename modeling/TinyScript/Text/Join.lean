/-! # Joined text

Lists are written in two ways: with a comma and a space between neighbours, or run together.
-/

namespace TinyScript.Text

/-- Texts with a comma and a space between neighbours. -/
def commaSeparated : List String → String
  | [] => ""
  | [text] => text
  | text :: texts => text ++ ", " ++ commaSeparated texts

/-- Texts run together. -/
def concatenated : List String → String
  | [] => ""
  | text :: texts => text ++ concatenated texts

/-- Joined lists of texts give joined texts. -/
theorem concatenated_append (texts others : List String) :
    concatenated (texts ++ others) = concatenated texts ++ concatenated others := by
  induction texts with
  | nil => exact String.empty_append.symm
  | cons text texts ih => simp only [List.cons_append, concatenated, ih, String.append_assoc]

/-- The text of a line number in front of what is said about the line. -/
def onLine (line : Nat) (detail : String) : String :=
  "on line " ++ Nat.repr line ++ ": " ++ detail

end TinyScript.Text
