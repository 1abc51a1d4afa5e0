import TinyScript.Number.Decimal
import TinyScript.Syntax.Rule
import TinyScript.Syntax.Tree

/-! # The grammar

The rules of the language, by climbing levels of binding: an expression is an operand followed by
continuations that bind tighter than the level asked for, and the right side of an operator is read at
the operator's own level, so chains of one level group to the left.

Every rule takes a bound on the depth of calls. Each call goes one deeper and at most four calls are
made between one token and the next, so a bound of four times the number of tokens, plus four, is never
met (`program_isDone`).
-/

namespace TinyScript.Grammar

open Rule

/-- The number that a token's text is read as; it has to be finite. -/
def numeral (token : Token) : Rule Expr :=
  match Single.read? token.literal with
  | some value =>
    if value.isFinite then return .number value token.line
    else fail (.invalidNumber token.literal token.line)
  | none => fail (.invalidNumber token.literal token.line)

/-- The name at a token. -/
def identAt (token : Token) : Ident := ⟨token.literal, token.line⟩

/-- The rest of the parameters, up to the closing parenthesis. -/
def parameterTail : Nat → Rule (List Ident)
  | 0 => starve
  | depth + 1 => do
    let next ← peek
    if next.kind = .comma then
      let _ ← take
      let token ← expect .identifier
      let others ← parameterTail depth
      return identAt token :: others
    else
      let _ ← expect .rightParen
      return []

/-- Names between parentheses, without a comma at the end. -/
def parameters (depth : Nat) : Rule (List Ident) := do
  let _ ← expect .leftParen
  let next ← peek
  if next.kind = .rightParen then
    let _ ← take
    return []
  else
    let token ← expect .identifier
    let others ← parameterTail depth
    return identAt token :: others

/-- Between two entries of a hash stands a comma; before the closing brace it may be left out. -/
def entrySeparator : Rule Unit := do
  let next ← peek
  if next.kind = .rightBrace then return () else Functor.discard (expect .comma)

/-- A `return` is bare before these kinds of token. -/
def endsBareReturn (kind : Token.Kind) : Bool :=
  kind == .semicolon || kind == .rightBrace || kind == .endOfInput

mutual

/-- An expression whose continuations all bind tighter than a level. -/
def expression : Nat → Level → Rule Expr
  | 0, _ => starve
  | depth + 1, level => do
    let left ← operand depth
    climb depth level left

/-- What an expression begins with. Its first token is taken in any case, so a token that begins no
expression is reported once. -/
def operand : Nat → Rule Expr
  | 0 => starve
  | depth + 1 => do
    let token ← take
    match token.kind with
    | .identifier => return .ident (identAt token)
    | .number => numeral token
    | .string => return .string token.literal token.line
    | .trueWord => return .boolean true token.line
    | .falseWord => return .boolean false token.line
    | .bang =>
      let right ← expression depth .unary
      return .unary .not right token.line
    | .minus =>
      let right ← expression depth .unary
      return .unary .negate right token.line
    | .leftParen =>
      let inner ← expression depth .lowest
      let _ ← expect .rightParen
      return inner
    | .ifWord =>
      let _ ← expect .leftParen
      let condition ← expression depth .lowest
      let _ ← expect .rightParen
      let consequence ← block depth
      let alternative ← alternative depth
      return .conditional condition consequence alternative token.line
    | .fnWord =>
      let parameters ← parameters depth
      let body ← block depth
      return .function parameters body token.line
    | .leftBracket =>
      let elements ← list depth .rightBracket
      return .array elements token.line
    | .leftBrace =>
      let entries ← entries depth
      return .hash entries token.line
    | .openString => fail (.unterminatedString token.line)
    | .illegal => fail (.illegalToken token.literal token.line)
    | kind => fail (.noOperand kind token.line)

/-- Continues an expression, given its left part, as long as continuations bind tighter than a level. -/
def climb : Nat → Level → Expr → Rule Expr
  | 0, _, _ => starve
  | depth + 1, level, left => do
    let token ← peek
    match Continuation.ofKind? token.kind with
    | none => return left
    | some continuation =>
      if level < continuation.level then
        let _ ← take
        let grown ← continued depth left token.line continuation
        climb depth level grown
      else return left

/-- The expression that a continuation makes of its left part. -/
def continued : Nat → Expr → Nat → Continuation → Rule Expr
  | 0, _, _, _ => starve
  | depth + 1, left, line, .operator op => do
    let right ← expression depth op.level
    return .binary op left right line
  | depth + 1, left, line, .call => do
    let arguments ← list depth .rightParen
    return .call left arguments line
  | depth + 1, left, line, .index => do
    let position ← expression depth .lowest
    let _ ← expect .rightBracket
    return .index left position line

/-- Expressions with commas between them, up to a closing token. -/
def list : Nat → Token.Kind → Rule (List Expr)
  | 0, _ => starve
  | depth + 1, closing => do
    let next ← peek
    if next.kind = closing then
      let _ ← take
      return []
    else
      let first ← expression depth .lowest
      let others ← listTail depth closing
      return first :: others

/-- The rest of a list after an element. -/
def listTail : Nat → Token.Kind → Rule (List Expr)
  | 0, _ => starve
  | depth + 1, closing => do
    let next ← peek
    if next.kind = .comma then
      let _ ← take
      let element ← expression depth .lowest
      let others ← listTail depth closing
      return element :: others
    else
      let _ ← expect closing
      return []

/-- Entries of a hash, up to the closing brace. -/
def entries : Nat → Rule (List (Expr × Expr))
  | 0 => starve
  | depth + 1 => do
    let next ← peek
    if next.kind = .rightBrace then
      let _ ← take
      return []
    else
      let key ← expression depth .lowest
      let _ ← expect .colon
      let value ← expression depth .lowest
      entrySeparator
      let others ← entries depth
      return (key, value) :: others

/-- What runs when a condition fails, if the text says so. -/
def alternative : Nat → Rule (Option Block)
  | 0 => starve
  | depth + 1 => do
    let next ← peek
    if next.kind = .elseWord then
      let _ ← take
      let block ← block depth
      return some block
    else return none

/-- Statements between braces. -/
def block : Nat → Rule Block
  | 0 => starve
  | depth + 1 => do
    let brace ← expect .leftBrace
    let statements ← statements depth
    return .mk statements brace.line

/-- Statements up to the closing brace; those that fail are left out. The end of the input is taken when
it is met instead of the brace. -/
def statements : Nat → Rule (List Statement)
  | 0 => starve
  | depth + 1 => do
    let next ← peek
    if next.kind = .rightBrace then
      let _ ← take
      return []
    else if next.kind = .endOfInput then
      let _ ← take
      fail (.unexpected .rightBrace .endOfInput next.line)
    else
      let first ← attempt (statement depth)
      let others ← statements depth
      return first.toList ++ others

/-- A statement, with the semicolon that may end it. -/
def statement : Nat → Rule Statement
  | 0 => starve
  | depth + 1 => do
    let first ← peek
    match first.kind with
    | .letWord =>
      let _ ← take
      let name ← expect .identifier
      let _ ← expect .assign
      let value ← expression depth .lowest
      skipSemicolon
      return .bind (identAt name) value first.line
    | .returnWord =>
      let _ ← take
      let next ← peek
      if endsBareReturn next.kind then
        skipSemicolon
        return .leave none first.line
      else
        let value ← expression depth .lowest
        skipSemicolon
        return .leave (some value) first.line
    | _ =>
      let value ← expression depth .lowest
      skipSemicolon
      return .expression value first.line

end

/-- Statements up to the end of the input; those that fail are left out. -/
def program : Nat → Rule Program
  | 0 => starve
  | depth + 1 => do
    let next ← peek
    if next.kind = .endOfInput then return []
    else
      let first ← attempt (statement depth)
      let others ← program depth
      return first.toList ++ others

end TinyScript.Grammar
