import TinyScript.Syntax.Grammar

/-! # Reading programs

A feed of tokens is always read to a program: statements that are malformed are left out of it, and the
errors say why. A program with no errors is the whole of the text.
-/

namespace TinyScript

/-- What a feed is read as: the well-formed statements, and the errors in the order they were met. -/
structure Parse where
  program : Program
  errors : List SyntaxError

/-- The bound on the depth of rule calls that a feed can need. -/
def Feed.depthBound (feed : Feed) : Nat :=
  4 * feed.tokens.length + 4

/-- Reads a feed. The rule of a program never fails and the bound is never met
(`Grammar.program_isDone`), so the first case is the only one. -/
def Feed.parse (feed : Feed) : Parse :=
  match Grammar.program feed.depthBound ⟨feed, []⟩ with
  | .done program next => ⟨program, next.errors.reverse⟩
  | .failed next => ⟨[], next.errors.reverse⟩
  | .starved => ⟨[], []⟩

/-- Reads a source text. -/
def Parse.ofSource (source : String) : Parse :=
  (Feed.ofSource source).parse

end TinyScript
