import TinyScript.Syntax.Parse

/-! # Writings

How programs are written as tokens. A writing of a tree is its tokens in the order of the source: one
token for each name, literal, operator, word and delimiter, and nothing else but parentheses around
expressions, a semicolon after a statement, and a comma after the last entry of a hash. Every node has the
line of the token that heads it.

An expression is written **at a rank**: unless it stands in parentheses, its root binds at that rank or
tighter. The left side of an operator is written at the operator's own rank and the right side above it, so
chains of one level group to the left; the operand of a prefix is written at the rank of prefixes, and what
is called or indexed at the rank of calls. In parentheses any expression may stand anywhere.

A semicolon may be left out where the token that follows could not continue the statement: always at the
end of a block or of the text.
-/

namespace TinyScript

open Grammar

/-- The kind of token that stands for a prefix operator. -/
def UnaryOp.kind : UnaryOp → Token.Kind
  | .not => .bang
  | .negate => .minus

/-- The word of a truth value. -/
def Token.Kind.ofBool : Bool → Token.Kind
  | true => .trueWord
  | false => .falseWord

/-- The kinds of tokens that an expression can begin with. -/
def Token.Kind.beginsExpression : Token.Kind → Bool
  | .identifier | .number | .string | .trueWord | .falseWord | .bang | .minus | .leftParen | .ifWord
  | .fnWord | .leftBracket | .leftBrace => true
  | _ => false

/-- The kinds of tokens that a statement can begin with. -/
def Token.Kind.beginsStatement : Token.Kind → Bool
  | .letWord | .returnWord => true
  | kind => kind.beginsExpression

/-- Whether a statement is complete before a kind of token even without a semicolon. A `return` without a
value needs the end of its block or of the text; any other statement ends before a token that does not
continue an expression. -/
def Statement.EndsBefore : Statement → Token.Kind → Prop
  | .leave none _, kind => kind = .rightBrace ∨ kind = .endOfInput
  | _, kind => kind ≠ .semicolon ∧ Continuation.ofKind? kind = none

/-- Names, each after a comma. -/
inductive Ident.WrittenTail : List Ident → List Token → Prop where
  | nil : Ident.WrittenTail [] []
  | cons (comma token : Token) {names : List Ident} {tokens : List Token}
      (hc : comma.kind = .comma) (hk : token.kind = .identifier)
      (h : Ident.WrittenTail names tokens) :
      Ident.WrittenTail (identAt token :: names) (comma :: token :: tokens)

/-- Names with commas between them. -/
inductive Ident.WrittenAll : List Ident → List Token → Prop where
  | nil : Ident.WrittenAll [] []
  | cons (token : Token) {names : List Ident} {tokens : List Token}
      (hk : token.kind = .identifier) (h : Ident.WrittenTail names tokens) :
      Ident.WrittenAll (identAt token :: names) (token :: tokens)

mutual

/-- An expression written at a rank. -/
inductive Expr.Written : Nat → Expr → List Token → Prop where
  | ident {rank : Nat} (token : Token) (hk : token.kind = .identifier) :
      Expr.Written rank (.ident (identAt token)) [token]
  | number {rank : Nat} (token : Token) {value : Single} (hk : token.kind = .number)
      (hv : Single.read? token.literal = some value) (hf : value.isFinite = true) :
      Expr.Written rank (.number value token.line) [token]
  | string {rank : Nat} (token : Token) (hk : token.kind = .string) :
      Expr.Written rank (.string token.literal token.line) [token]
  | boolean {rank : Nat} (token : Token) (value : Bool) (hk : token.kind = .ofBool value) :
      Expr.Written rank (.boolean value token.line) [token]
  | array {rank : Nat} (opening closing : Token) {elements : List Expr} {tokens : List Token}
      (ho : opening.kind = .leftBracket) (h : Expr.WrittenAll elements tokens)
      (hc : closing.kind = .rightBracket) :
      Expr.Written rank (.array elements opening.line) (opening :: (tokens ++ [closing]))
  | hash {rank : Nat} (opening closing : Token) {entries : List (Expr × Expr)} {tokens : List Token}
      (ho : opening.kind = .leftBrace) (h : Expr.WrittenEntries entries tokens)
      (hc : closing.kind = .rightBrace) :
      Expr.Written rank (.hash entries opening.line) (opening :: (tokens ++ [closing]))
  | unary {rank : Nat} (token : Token) (op : UnaryOp) {operand : Expr} {tokens : List Token}
      (hr : rank ≤ Level.unary.rank) (hk : token.kind = op.kind)
      (h : Expr.Written Level.unary.rank operand tokens) :
      Expr.Written rank (.unary op operand token.line) (token :: tokens)
  | binary {rank : Nat} (token : Token) (op : BinaryOp) {left right : Expr} {before after : List Token}
      (hr : rank ≤ op.level.rank) (hl : Expr.Written op.level.rank left before)
      (hk : token.kind = op.kind) (h : Expr.Written (op.level.rank + 1) right after) :
      Expr.Written rank (.binary op left right token.line) (before ++ token :: after)
  | conditional {rank : Nat} (word opening closing : Token) {condition : Expr} {consequence : Block}
      {tokens body : List Token} (hw : word.kind = .ifWord) (ho : opening.kind = .leftParen)
      (hc : Expr.Written 0 condition tokens) (hcl : closing.kind = .rightParen)
      (h : Block.Written consequence body) :
      Expr.Written rank (.conditional condition consequence none word.line)
        (word :: opening :: (tokens ++ closing :: body))
  | conditionalElse {rank : Nat} (word opening closing elseWord : Token) {condition : Expr}
      {consequence alternative : Block} {tokens body other : List Token} (hw : word.kind = .ifWord)
      (ho : opening.kind = .leftParen) (hc : Expr.Written 0 condition tokens)
      (hcl : closing.kind = .rightParen) (h : Block.Written consequence body)
      (he : elseWord.kind = .elseWord) (ha : Block.Written alternative other) :
      Expr.Written rank (.conditional condition consequence (some alternative) word.line)
        (word :: opening :: (tokens ++ closing :: (body ++ elseWord :: other)))
  | function {rank : Nat} (word opening closing : Token) {parameters : List Ident} {body : Block}
      {names tokens : List Token} (hw : word.kind = .fnWord) (ho : opening.kind = .leftParen)
      (hp : Ident.WrittenAll parameters names) (hc : closing.kind = .rightParen)
      (h : Block.Written body tokens) :
      Expr.Written rank (.function parameters body word.line)
        (word :: opening :: (names ++ closing :: tokens))
  | call {rank : Nat} (opening closing : Token) {callee : Expr} {arguments : List Expr}
      {before tokens : List Token} (hf : Expr.Written Level.call.rank callee before)
      (ho : opening.kind = .leftParen) (h : Expr.WrittenAll arguments tokens)
      (hc : closing.kind = .rightParen) :
      Expr.Written rank (.call callee arguments opening.line)
        (before ++ opening :: (tokens ++ [closing]))
  | index {rank : Nat} (opening closing : Token) {collection position : Expr}
      {before tokens : List Token} (hf : Expr.Written Level.call.rank collection before)
      (ho : opening.kind = .leftBracket) (h : Expr.Written 0 position tokens)
      (hc : closing.kind = .rightBracket) :
      Expr.Written rank (.index collection position opening.line)
        (before ++ opening :: (tokens ++ [closing]))
  | grouped {rank : Nat} (opening closing : Token) {inner : Expr} {tokens : List Token}
      (ho : opening.kind = .leftParen) (h : Expr.Written 0 inner tokens)
      (hc : closing.kind = .rightParen) :
      Expr.Written rank inner (opening :: (tokens ++ [closing]))

/-- Expressions, each after a comma. -/
inductive Expr.WrittenTail : List Expr → List Token → Prop where
  | nil : Expr.WrittenTail [] []
  | cons (comma : Token) {e : Expr} {es : List Expr} {tokens others : List Token}
      (hc : comma.kind = .comma) (h : Expr.Written 0 e tokens) (ht : Expr.WrittenTail es others) :
      Expr.WrittenTail (e :: es) (comma :: (tokens ++ others))

/-- Expressions with commas between them. -/
inductive Expr.WrittenAll : List Expr → List Token → Prop where
  | nil : Expr.WrittenAll [] []
  | cons {e : Expr} {es : List Expr} {tokens others : List Token} (h : Expr.Written 0 e tokens)
      (ht : Expr.WrittenTail es others) : Expr.WrittenAll (e :: es) (tokens ++ others)

/-- Entries of a hash with commas between them; one more comma may stand at the end. -/
inductive Expr.WrittenEntries : List (Expr × Expr) → List Token → Prop where
  | nil : Expr.WrittenEntries [] []
  | last (colon : Token) {key value : Expr} {before after : List Token}
      (hk : Expr.Written 0 key before) (hc : colon.kind = .colon) (hv : Expr.Written 0 value after) :
      Expr.WrittenEntries [(key, value)] (before ++ colon :: after)
  | cons (colon comma : Token) {key value : Expr} {entries : List (Expr × Expr)}
      {before after others : List Token} (hk : Expr.Written 0 key before) (hc : colon.kind = .colon)
      (hv : Expr.Written 0 value after) (hs : comma.kind = .comma)
      (ht : Expr.WrittenEntries entries others) :
      Expr.WrittenEntries ((key, value) :: entries) (before ++ colon :: (after ++ comma :: others))

/-- A statement, without the semicolon that may end it. -/
inductive Statement.Written : Statement → List Token → Prop where
  | bind (word token sign : Token) {value : Expr} {tokens : List Token} (hw : word.kind = .letWord)
      (hk : token.kind = .identifier) (hs : sign.kind = .assign) (h : Expr.Written 0 value tokens) :
      Statement.Written (.bind (identAt token) value word.line) (word :: token :: sign :: tokens)
  | leaveBare (word : Token) (hw : word.kind = .returnWord) :
      Statement.Written (.leave none word.line) [word]
  | leave (word : Token) {value : Expr} {tokens : List Token} (hw : word.kind = .returnWord)
      (h : Expr.Written 0 value tokens) :
      Statement.Written (.leave (some value) word.line) (word :: tokens)
  | expression (first : Token) {value : Expr} {tokens : List Token}
      (h : Expr.Written 0 value (first :: tokens)) :
      Statement.Written (.expression value first.line) (first :: tokens)

/-- Statements in order, each ended by a semicolon where one is needed. -/
inductive Statement.WrittenAll : List Statement → List Token → Prop where
  | nil : Statement.WrittenAll [] []
  | ended (semicolon : Token) {s : Statement} {ss : List Statement} {tokens others : List Token}
      (h : Statement.Written s tokens) (hs : semicolon.kind = .semicolon)
      (ht : Statement.WrittenAll ss others) :
      Statement.WrittenAll (s :: ss) (tokens ++ semicolon :: others)
  | unended {s : Statement} {ss : List Statement} {tokens others : List Token}
      (h : Statement.Written s tokens) (hn : ∀ next ∈ others.head?, s.EndsBefore next.kind)
      (ht : Statement.WrittenAll ss others) : Statement.WrittenAll (s :: ss) (tokens ++ others)

/-- Statements between braces. -/
inductive Block.Written : Block → List Token → Prop where
  | mk (opening closing : Token) {statements : List Statement} {tokens : List Token}
      (ho : opening.kind = .leftBrace) (h : Statement.WrittenAll statements tokens)
      (hc : closing.kind = .rightBrace) :
      Block.Written (.mk statements opening.line) (opening :: (tokens ++ [closing]))

end

/-- What is written at a rank is written at every lower one. -/
theorem Expr.Written.mono {rank lower : Nat} {e : Expr} {tokens : List Token}
    (h : Expr.Written rank e tokens) (hl : lower ≤ rank) : Expr.Written lower e tokens := by
  cases h with
  | ident token hk => exact .ident token hk
  | number token hk hv hf => exact .number token hk hv hf
  | string token hk => exact .string token hk
  | boolean token value hk => exact .boolean token value hk
  | array opening closing ho h hc => exact .array opening closing ho h hc
  | hash opening closing ho h hc => exact .hash opening closing ho h hc
  | unary token op hr hk h => exact .unary token op (Nat.le_trans hl hr) hk h
  | binary token op hr hb hk h => exact .binary token op (Nat.le_trans hl hr) hb hk h
  | conditional word opening closing hw ho hc hcl h =>
    exact .conditional word opening closing hw ho hc hcl h
  | conditionalElse word opening closing elseWord hw ho hc hcl h he ha =>
    exact .conditionalElse word opening closing elseWord hw ho hc hcl h he ha
  | function word opening closing hw ho hp hc h =>
    exact .function word opening closing hw ho hp hc h
  | call opening closing hf ho h hc => exact .call opening closing hf ho h hc
  | index opening closing hf ho h hc => exact .index opening closing hf ho h hc
  | grouped opening closing ho h hc => exact .grouped opening closing ho h hc

/-- An expression is written with at least one token, the first of which can begin an expression. -/
theorem Expr.Written.exists_cons {rank : Nat} {e : Expr} {tokens : List Token} :
    Expr.Written rank e tokens →
      ∃ first others, tokens = first :: others ∧ first.kind.beginsExpression = true
  | .ident token hk | .string token hk | .number token hk _ _ => ⟨token, [], rfl, by rw [hk]; rfl⟩
  | .boolean token value hk => ⟨token, [], rfl, by rw [hk]; cases value <;> rfl⟩
  | .array opening _ ho _ _ | .hash opening _ ho _ _ | .grouped opening _ ho _ _ =>
    ⟨opening, _, rfl, by rw [ho]; rfl⟩
  | .unary token op _ hk _ => ⟨token, _, rfl, by rw [hk]; cases op <;> rfl⟩
  | .conditional word _ _ hw _ _ _ _ | .conditionalElse word _ _ _ hw _ _ _ _ _ _
  | .function word _ _ hw _ _ _ _ => ⟨word, _, rfl, by rw [hw]; rfl⟩
  | .binary _ _ _ hl _ _ => by
    obtain ⟨first, others, rfl, hb⟩ := hl.exists_cons
    exact ⟨first, _, rfl, hb⟩
  | .call _ _ hf _ _ _ | .index _ _ hf _ _ _ => by
    obtain ⟨first, others, rfl, hb⟩ := hf.exists_cons
    exact ⟨first, _, rfl, hb⟩

/-- A statement begins with its word or with an expression. -/
theorem Statement.Written.exists_cons {s : Statement} {tokens : List Token} (h : s.Written tokens) :
    ∃ first others, tokens = first :: others ∧ first.kind.beginsStatement = true := by
  cases h with
  | bind word token sign hw _ _ _ => exact ⟨word, _, rfl, by rw [hw]; rfl⟩
  | leaveBare word hw => exact ⟨word, _, rfl, by rw [hw]; rfl⟩
  | leave word hw _ => exact ⟨word, _, rfl, by rw [hw]; rfl⟩
  | expression first h =>
    obtain ⟨_, _, he, hb⟩ := h.exists_cons
    cases he
    refine ⟨first, _, rfl, ?_⟩
    unfold Token.Kind.beginsStatement
    split
    · rfl
    · rfl
    · exact hb

/-- Statements are written with no token at all, or begin with one that can begin a statement. -/
theorem Statement.WrittenAll.eq_nil_or_exists_cons {ss : List Statement} {tokens : List Token}
    (h : Statement.WrittenAll ss tokens) :
    tokens = [] ∨ ∃ first others, tokens = first :: others ∧ first.kind.beginsStatement = true := by
  cases h with
  | nil => exact .inl rfl
  | ended semicolon h hs ht =>
    obtain ⟨first, others, rfl, hb⟩ := h.exists_cons
    exact .inr ⟨first, _, rfl, hb⟩
  | unended h hn ht =>
    obtain ⟨first, others, rfl, hb⟩ := h.exists_cons
    exact .inr ⟨first, _, rfl, hb⟩

end TinyScript
