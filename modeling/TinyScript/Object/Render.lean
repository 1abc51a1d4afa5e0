import TinyScript.Object.Basic
import TinyScript.Syntax.Render

/-! # Text of objects

What a program shows of its values. The entries of a hash are written in the order of their texts, so
the text of a hash depends on what it holds and not on the order in which it was built.
-/

namespace TinyScript

/-- The order of entries: by the text of the key, then by the text of the value, both by code points. -/
def Text.entryLE (a b : String × String) : Bool :=
  decide (a.1 < b.1) || (a.1 == b.1 && decide (a.2 ≤ b.2))

/-- The text of a hash from the texts of its entries. -/
def Text.hash (entries : List (String × String)) : String :=
  let sorted := entries.mergeSort Text.entryLE
  "\x7b" ++ Text.commaSeparated (sorted.map fun entry => entry.1 ++ ": " ++ entry.2) ++ "\x7d"

mutual

/-- The text of an object. -/
def Object.render : Object → String
  | ⟨_, value⟩ => value.render

/-- The text of a value. -/
def Value.render : Value → String
  | .number value => value.render
  | .boolean value => if value then "true" else "false"
  | .null => "null"
  | .string text => text
  | .array elements => "[" ++ Text.commaSeparated (Object.renderAll elements) ++ "]"
  | .hash entries => Text.hash (Object.renderEntries entries)
  | .function parameters body _ =>
    "fn(" ++ Text.commaSeparated (parameters.map Ident.name) ++ ") \x7b " ++ body.render ++ " \x7d"
  | .builtin builtin => "builtin function " ++ builtin.name
  | .error failure => "ERROR line " ++ Nat.repr failure.line ++ ": " ++ failure.fault.detail

/-- The texts of objects. -/
def Object.renderAll : List Object → List String
  | [] => []
  | object :: objects => object.render :: Object.renderAll objects

/-- The texts of the keys and values of a hash. -/
def Object.renderEntries : List (Key × Object × Object) → List (String × String)
  | [] => []
  | (_, key, value) :: entries => (key.render, value.render) :: Object.renderEntries entries

end

end TinyScript
