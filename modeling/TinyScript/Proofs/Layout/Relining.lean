import TinyScript.Syntax.Parse

/-! # Relining

To reline something is to change the lines it mentions by a function and nothing else. Two texts that differ
only in their layout have tokens that are equal once they are all put on one line, `Token.unlined`, so what
commutes with relining does not depend on layout.
-/

namespace TinyScript

variable (f : Nat → Nat)

/-- A token on another line. -/
def Token.relined (token : Token) : Token := ⟨token.kind, token.literal, f token.line⟩

/-- A name on another line. -/
def Ident.relined (name : Ident) : Ident := ⟨name.name, f name.line⟩

mutual

/-- An expression on other lines. -/
def Expr.relined : Expr → Expr
  | .ident name => .ident (name.relined f)
  | .number value line => .number value (f line)
  | .boolean value line => .boolean value (f line)
  | .string value line => .string value (f line)
  | .array elements line => .array (Expr.relinedAll elements) (f line)
  | .hash entries line => .hash (Expr.relinedEntries entries) (f line)
  | .unary op operand line => .unary op operand.relined (f line)
  | .binary op left right line => .binary op left.relined right.relined (f line)
  | .conditional condition consequence alternative line =>
    .conditional condition.relined consequence.relined (Block.relined? alternative) (f line)
  | .function parameters body line =>
    .function (parameters.map (Ident.relined f)) body.relined (f line)
  | .call callee arguments line => .call callee.relined (Expr.relinedAll arguments) (f line)
  | .index collection position line => .index collection.relined position.relined (f line)

/-- Expressions on other lines. -/
def Expr.relinedAll : List Expr → List Expr
  | [] => []
  | e :: es => e.relined :: Expr.relinedAll es

/-- Entries of a hash on other lines. -/
def Expr.relinedEntries : List (Expr × Expr) → List (Expr × Expr)
  | [] => []
  | (key, value) :: entries => (key.relined, value.relined) :: Expr.relinedEntries entries

/-- A statement on other lines. -/
def Statement.relined : Statement → Statement
  | .bind name value line => .bind (name.relined f) value.relined (f line)
  | .leave none line => .leave none (f line)
  | .leave (some value) line => .leave (some value.relined) (f line)
  | .expression value line => .expression value.relined (f line)
  | .block body => .block body.relined

/-- Statements on other lines. -/
def Statement.relinedAll : List Statement → List Statement
  | [] => []
  | s :: ss => s.relined :: Statement.relinedAll ss

/-- A block on other lines. -/
def Block.relined : Block → Block
  | .mk statements line => .mk (Statement.relinedAll statements) (f line)

/-- A block, if there is one, on other lines. -/
def Block.relined? : Option Block → Option Block
  | none => none
  | some body => some body.relined

end

/-- An error on another line. -/
def SyntaxError.relined : SyntaxError → SyntaxError
  | .unexpected expected found line => .unexpected expected found (f line)
  | .noOperand found line => .noOperand found (f line)
  | .invalidNumber literal line => .invalidNumber literal (f line)
  | .unterminatedString line => .unterminatedString (f line)
  | .illegalToken literal line => .illegalToken literal (f line)

/-- A feed on other lines. -/
def Feed.relined (feed : Feed) : Feed := ⟨feed.tokens.map (Token.relined f), f feed.lastLine⟩

/-- What was read, on other lines. -/
def Parse.relined (parse : Parse) : Parse :=
  ⟨Statement.relinedAll f parse.program, parse.errors.map (SyntaxError.relined f)⟩

/-- A token without its line. -/
def Token.unlined : Token → Token := Token.relined fun _ => 0

/-- Statements without their lines. -/
def Statement.unlinedAll : List Statement → List Statement := Statement.relinedAll fun _ => 0

/-- An error without its line. -/
def SyntaxError.unlined : SyntaxError → SyntaxError := SyntaxError.relined fun _ => 0

/-- The line of an expression becomes its new line. -/
theorem Expr.line_relined (e : Expr) : (e.relined f).line = f e.line := by
  cases e <;> rfl

theorem Statement.relinedAll_append (ss others : List Statement) :
    Statement.relinedAll f (ss ++ others) = Statement.relinedAll f ss ++ Statement.relinedAll f others := by
  induction ss with
  | nil => rfl
  | cons s ss ih => exact congrArg (s.relined f :: ·) ih

theorem Block.statements_relined (body : Block) :
    (body.relined f).statements = Statement.relinedAll f body.statements := by
  cases body
  rfl

/-- The next token is the same on its new line. -/
theorem Feed.head_relined (feed : Feed) : (feed.relined f).head = feed.head.relined f := by
  obtain ⟨tokens, lastLine⟩ := feed
  cases tokens <;> rfl

theorem Feed.rest_relined (feed : Feed) : (feed.relined f).rest = feed.rest.relined f := by
  obtain ⟨tokens, lastLine⟩ := feed
  cases tokens <;> rfl

/-- There are as many tokens, so the bound is the same. -/
theorem Feed.depthBound_relined (feed : Feed) : (feed.relined f).depthBound = feed.depthBound := by
  simp only [depthBound, relined, List.length_map]

end TinyScript
