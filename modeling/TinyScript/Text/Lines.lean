/-! # Lines of a text

A line ends at a newline; a carriage return before the newline belongs to the end of the line. Text after
the last newline is a line too, if there is any, and is taken as it stands.
-/

namespace TinyScript.Text

/-- A line without the carriage return that it may end with. -/
def chompReturn (line : List Char) : List Char :=
  match line.getLast? with
  | some '\r' => line.dropLast
  | _ => line

/-- The lines of a text. -/
def lines (text : String) : List String :=
  let parts := text.toList.splitOn '\n'
  let ended := parts.dropLast.map chompReturn
  let unended := parts.getLast?.toList.filter fun part => !part.isEmpty
  (ended ++ unended).map String.ofList

end TinyScript.Text
