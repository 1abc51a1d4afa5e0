import TinyScript.Token.Piece

/-! # Token feeds

A feed hands out tokens one at a time and never runs dry: past its last token it hands out the end of
the input, again and again, on one line. A feed comes from a source text, whose tokens stand on one plus
the number of newlines before them, or from a list of tokens, whose end stands on the last token's line.
-/

namespace TinyScript

/-- The tokens of pieces, the first of which stands on `line`. -/
def Token.ofPieces (line : Nat) : List Piece → List Token
  | [] => []
  | p :: ps => (p.token? line).toList ++ ofPieces (line + p.newlines) ps

/-- Tokens still to be handed out, and the line of the end of the input after them. -/
structure Feed where
  tokens : List Token
  lastLine : Nat
  deriving DecidableEq

namespace Feed

/-- The feed of a source text. -/
def ofSource (source : String) : Feed :=
  ⟨Token.ofPieces 1 (pieces source.toList), 1 + source.toList.count '\n'⟩

/-- The feed of a list of tokens. -/
def ofTokens (tokens : List Token) : Feed :=
  ⟨tokens, (tokens.getLast?.map Token.line).getD 1⟩

/-- The end of the input, after the last token. -/
def atEnd (feed : Feed) : Token :=
  Token.atEnd feed.lastLine

/-- The next token. -/
def head (feed : Feed) : Token :=
  feed.tokens.head?.getD feed.atEnd

/-- The feed after its next token. -/
def rest (feed : Feed) : Feed :=
  ⟨feed.tokens.tail, feed.lastLine⟩

/-- The next `count` tokens. -/
def take (feed : Feed) : Nat → List Token
  | 0 => []
  | count + 1 => feed.head :: feed.rest.take count

/-- A feed without tokens hands out the end of the input. -/
theorem head_eq_atEnd {feed : Feed} (h : feed.tokens = []) : feed.head = feed.atEnd := by
  simp only [head, h, List.head?_nil, Option.getD_none]

end Feed

/-- All tokens of a source text, closed by one end of the input. -/
def Token.scan (source : String) : List Token :=
  let feed := Feed.ofSource source
  feed.tokens ++ [feed.atEnd]

end TinyScript
