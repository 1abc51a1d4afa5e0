import TinyScript.Token.Feed
import TinyScript.Syntax.Error

/-! # Rules

A rule reads tokens from a feed and either completes with what it read or fails. A failed rule has
recorded why and leaves the feed where it stopped, so that reading goes on from there: one pass reports
as many errors as it can. Rules that call each other carry a bound on the depth of calls; a rule that
meets it is **starved**, which is neither completion nor failure.
-/

namespace TinyScript

/-- A place in a feed, and the errors recorded on the way to it, latest first. -/
structure Cursor where
  feed : Feed
  errors : List SyntaxError

/-- How a rule ends. -/
inductive Outcome (α : Type) where
  | done (value : α) (next : Cursor)
  | failed (next : Cursor)
  | starved

/-- A way to read an `α` from a cursor on. -/
def Rule (α : Type) := Cursor → Outcome α

namespace Rule

variable {α β : Type}

/-- Reads nothing. -/
protected def pure (value : α) : Rule α := fun cursor => .done value cursor

/-- Reads with one rule, and on with the rule that its result gives. -/
protected def bind (rule : Rule α) (next : α → Rule β) : Rule β := fun cursor =>
  match rule cursor with
  | .done value after => next value after
  | .failed after => .failed after
  | .starved => .starved

instance : Monad Rule where
  pure := Rule.pure
  bind := Rule.bind

/-- The rule of a call beyond the bound. -/
def starve : Rule α := fun _ => .starved

/-- Fails with an error. -/
def fail (error : SyntaxError) : Rule α := fun cursor =>
  .failed ⟨cursor.feed, error :: cursor.errors⟩

/-- The next token, left where it is. -/
def peek : Rule Token := fun cursor => .done cursor.feed.head cursor

/-- The next token, taken. -/
def take : Rule Token := fun cursor => .done cursor.feed.head ⟨cursor.feed.rest, cursor.errors⟩

/-- Takes the next token if it is of the kind required; fails otherwise, and leaves it. -/
def expect (kind : Token.Kind) : Rule Token := do
  let token ← peek
  if token.kind = kind then take else fail (.unexpected kind token.kind token.line)

/-- Takes the next token if it is a semicolon. -/
def skipSemicolon : Rule Unit := do
  let token ← peek
  if token.kind = .semicolon then Functor.discard take else return ()

/-- A result, or nothing where the rule fails; reading goes on from where it stopped. -/
def attempt (rule : Rule α) : Rule (Option α) := fun cursor =>
  match rule cursor with
  | .done value after => .done (some value) after
  | .failed after => .done none after
  | .starved => .starved

end Rule

end TinyScript
