import TinyScript.Proofs.Recoding.Objects

/-! # Programs without nested blocks

A nested block runs in the scope around it, so its braces can be taken away where there is a statement between them;
an empty block stays, as it gives null. `Statement.UnbracesAll` takes away one pair of braces, anywhere in a program. To
flatten a program is to take away all pairs. **Taking one away changes no text, and it does not change what the program
is flattened to** (`Statement.UnbracesAll.render_eq`, `Statement.UnbracesAll.flattened_eq`).
-/

namespace TinyScript

mutual

/-- An expression without nested blocks, but for empty ones. -/
def Expr.flattened : Expr → Expr
  | .ident name => .ident name
  | .number value line => .number value line
  | .boolean value line => .boolean value line
  | .string value line => .string value line
  | .array elements line => .array (Expr.flattenedAll elements) line
  | .hash entries line => .hash (Expr.flattenedEntries entries) line
  | .unary op operand line => .unary op operand.flattened line
  | .binary op left right line => .binary op left.flattened right.flattened line
  | .conditional condition consequence alternative line =>
    .conditional condition.flattened consequence.flattened (Block.flattened? alternative) line
  | .function parameters body line => .function parameters body.flattened line
  | .call callee arguments line => .call callee.flattened (Expr.flattenedAll arguments) line
  | .index collection position line => .index collection.flattened position.flattened line

/-- Expressions without nested blocks. -/
def Expr.flattenedAll : List Expr → List Expr
  | [] => []
  | e :: es => e.flattened :: Expr.flattenedAll es

/-- Entries of a hash without nested blocks. -/
def Expr.flattenedEntries : List (Expr × Expr) → List (Expr × Expr)
  | [] => []
  | (key, value) :: entries => (key.flattened, value.flattened) :: Expr.flattenedEntries entries

/-- A statement without nested blocks: those of a block that is not empty, in its place. -/
def Statement.flattened : Statement → List Statement
  | .bind name value line => [.bind name value.flattened line]
  | .leave none line => [.leave none line]
  | .leave (some value) line => [.leave (some value.flattened) line]
  | .expression value line => [.expression value.flattened line]
  | .block (.mk [] line) => [.block (.mk [] line)]
  | .block (.mk (s :: ss) _) => s.flattened ++ Statement.flattenedAll ss

/-- Statements without nested blocks. -/
def Statement.flattenedAll : List Statement → List Statement
  | [] => []
  | s :: ss => s.flattened ++ Statement.flattenedAll ss

/-- A block without nested blocks. -/
def Block.flattened : Block → Block
  | .mk statements line => .mk (Statement.flattenedAll statements) line

/-- A block, if there is one, without nested blocks. -/
def Block.flattened? : Option Block → Option Block
  | none => none
  | some body => some body.flattened

end

theorem Expr.line_flattened (e : Expr) : e.flattened.line = e.line := by
  cases e <;> rfl

theorem Block.statements_flattened (body : Block) :
    body.flattened.statements = Statement.flattenedAll body.statements := by
  cases body
  rfl

theorem Statement.flattenedAll_append (ss others : List Statement) :
    Statement.flattenedAll (ss ++ others) = Statement.flattenedAll ss ++ Statement.flattenedAll others := by
  induction ss with
  | nil => rfl
  | cons s ss ih => simp only [List.cons_append, Statement.flattenedAll, ih, List.append_assoc]

/-- An empty block is kept, since its value is null and not that of the statement before it. -/
theorem Statement.flattened_block {ss : List Statement} (h : ss ≠ []) (line : Nat) :
    (Statement.block (.mk ss line)).flattened = Statement.flattenedAll ss := by
  cases ss with
  | nil => exact absurd rfl h
  | cons s ss => rfl

/-! ## Texts -/

theorem Statement.renderAll_append (ss others : List Statement) :
    Statement.renderAll (ss ++ others) = Statement.renderAll ss ++ Statement.renderAll others := by
  induction ss with
  | nil => rfl
  | cons s ss ih => simp only [List.cons_append, Statement.renderAll, ih]

theorem Program.render_append (program others : Program) :
    Program.render (program ++ others) = Program.render program ++ Program.render others := by
  unfold Program.render
  rw [Statement.renderAll_append, Text.concatenated_append]

mutual

/-- The text of an expression has no braces of nested blocks. -/
theorem Expr.render_flattened : ∀ e : Expr, e.flattened.render = e.render
  | .ident _ | .number _ _ | .boolean _ _ | .string _ _ => rfl
  | .array elements _ => by
    simp only [Expr.flattened, Expr.render, Expr.renderAll_flattened elements]
  | .hash entries _ => by
    simp only [Expr.flattened, Expr.render, Expr.renderEntries_flattened entries]
  | .unary _ operand _ => by
    simp only [Expr.flattened, Expr.render, operand.render_flattened]
  | .binary _ left right _ => by
    simp only [Expr.flattened, Expr.render, left.render_flattened, right.render_flattened]
  | .conditional condition consequence alternative _ => by
    simp only [Expr.flattened, Expr.render, condition.render_flattened, consequence.render_flattened,
      Expr.renderAlternative_flattened alternative]
  | .function _ body _ => by
    simp only [Expr.flattened, Expr.render, body.render_flattened]
  | .call callee arguments _ => by
    simp only [Expr.flattened, Expr.render, callee.render_flattened, Expr.renderAll_flattened arguments]
  | .index collection position _ => by
    simp only [Expr.flattened, Expr.render, collection.render_flattened, position.render_flattened]

theorem Expr.renderAll_flattened : ∀ es : List Expr, Expr.renderAll (Expr.flattenedAll es) = Expr.renderAll es
  | [] => rfl
  | e :: es => by simp only [Expr.flattenedAll, Expr.renderAll, e.render_flattened, Expr.renderAll_flattened es]

theorem Expr.renderEntries_flattened : ∀ entries : List (Expr × Expr),
    Expr.renderEntries (Expr.flattenedEntries entries) = Expr.renderEntries entries
  | [] => rfl
  | (key, value) :: entries => by
    simp only [Expr.flattenedEntries, Expr.renderEntries, key.render_flattened, value.render_flattened,
      Expr.renderEntries_flattened entries]

theorem Expr.renderAlternative_flattened : ∀ body? : Option Block,
    Expr.renderAlternative (Block.flattened? body?) = Expr.renderAlternative body?
  | none => rfl
  | some body => congrArg ("else " ++ ·) body.render_flattened

/-- Statements are run together inside a block as they are outside it. -/
theorem Statement.render_flattened : ∀ s : Statement, Program.render s.flattened = s.render
  | .bind _ value _ => by
    simp only [Statement.flattened, Program.render, Statement.renderAll, Text.concatenated, Statement.render,
      value.render_flattened, String.append_empty]
  | .leave none _ => rfl
  | .leave (some value) _ => by
    simp only [Statement.flattened, Program.render, Statement.renderAll, Text.concatenated, Statement.render,
      value.render_flattened, String.append_empty]
  | .expression value _ => by
    simp only [Statement.flattened, Program.render, Statement.renderAll, Text.concatenated, Statement.render,
      value.render_flattened, String.append_empty]
  | .block (.mk [] _) => rfl
  | .block (.mk (s :: ss) _) => by
    show Program.render (s.flattened ++ Statement.flattenedAll ss) = _
    rw [Program.render_append, s.render_flattened, Statement.renderAll_flattened ss]
    rfl

/-- A block is shown as its statements are, so nothing of it is left in the text. -/
theorem Statement.renderAll_flattened : ∀ ss : List Statement,
    Program.render (Statement.flattenedAll ss) = Program.render ss
  | [] => rfl
  | s :: ss => by
    show Program.render (s.flattened ++ Statement.flattenedAll ss) = _
    rw [Program.render_append, s.render_flattened, Statement.renderAll_flattened ss]
    rfl

theorem Block.render_flattened : ∀ body : Block, body.flattened.render = body.render
  | .mk statements _ => Statement.renderAll_flattened statements

end

/-- Code without nested blocks. -/
def Recoding.flattening : Recoding where
  parameters := id
  body := Block.flattened
  names_parameters _ := rfl
  render_body := Block.render_flattened

/-! ## Taking away braces -/

mutual

/-- An expression with the statements of one nested block, not empty, in the place of the block. -/
inductive Expr.Unbraces : Expr → Expr → Prop where
  | array {elements elements' : List Expr} (line : Nat) (h : Expr.UnbracesAll elements elements') :
    Expr.Unbraces (.array elements line) (.array elements' line)
  | hash {entries entries' : List (Expr × Expr)} (line : Nat) (h : Expr.UnbracesEntries entries entries') :
    Expr.Unbraces (.hash entries line) (.hash entries' line)
  | operand (op : UnaryOp) {operand operand' : Expr} (line : Nat) (h : Expr.Unbraces operand operand') :
    Expr.Unbraces (.unary op operand line) (.unary op operand' line)
  | left (op : BinaryOp) {left left' : Expr} (right : Expr) (line : Nat) (h : Expr.Unbraces left left') :
    Expr.Unbraces (.binary op left right line) (.binary op left' right line)
  | right (op : BinaryOp) (left : Expr) {right right' : Expr} (line : Nat) (h : Expr.Unbraces right right') :
    Expr.Unbraces (.binary op left right line) (.binary op left right' line)
  | condition {condition condition' : Expr} (consequence : Block) (alternative : Option Block) (line : Nat)
    (h : Expr.Unbraces condition condition') :
    Expr.Unbraces (.conditional condition consequence alternative line)
      (.conditional condition' consequence alternative line)
  | consequence (condition : Expr) {consequence consequence' : Block} (alternative : Option Block) (line : Nat)
    (h : Block.Unbraces consequence consequence') :
    Expr.Unbraces (.conditional condition consequence alternative line)
      (.conditional condition consequence' alternative line)
  | alternative (condition : Expr) (consequence : Block) {body body' : Block} (line : Nat)
    (h : Block.Unbraces body body') :
    Expr.Unbraces (.conditional condition consequence (some body) line)
      (.conditional condition consequence (some body') line)
  | body (parameters : List Ident) {body body' : Block} (line : Nat) (h : Block.Unbraces body body') :
    Expr.Unbraces (.function parameters body line) (.function parameters body' line)
  | callee {callee callee' : Expr} (arguments : List Expr) (line : Nat) (h : Expr.Unbraces callee callee') :
    Expr.Unbraces (.call callee arguments line) (.call callee' arguments line)
  | arguments (callee : Expr) {arguments arguments' : List Expr} (line : Nat)
    (h : Expr.UnbracesAll arguments arguments') :
    Expr.Unbraces (.call callee arguments line) (.call callee arguments' line)
  | collection {collection collection' : Expr} (position : Expr) (line : Nat)
    (h : Expr.Unbraces collection collection') :
    Expr.Unbraces (.index collection position line) (.index collection' position line)
  | position (collection : Expr) {position position' : Expr} (line : Nat) (h : Expr.Unbraces position position') :
    Expr.Unbraces (.index collection position line) (.index collection position' line)

/-- The same in one of several expressions. -/
inductive Expr.UnbracesAll : List Expr → List Expr → Prop where
  | head {e e' : Expr} (es : List Expr) (h : Expr.Unbraces e e') : Expr.UnbracesAll (e :: es) (e' :: es)
  | tail (e : Expr) {es es' : List Expr} (h : Expr.UnbracesAll es es') : Expr.UnbracesAll (e :: es) (e :: es')

/-- The same in one of several entries of a hash. -/
inductive Expr.UnbracesEntries : List (Expr × Expr) → List (Expr × Expr) → Prop where
  | key {key key' : Expr} (value : Expr) (entries : List (Expr × Expr)) (h : Expr.Unbraces key key') :
    Expr.UnbracesEntries ((key, value) :: entries) ((key', value) :: entries)
  | value (key : Expr) {value value' : Expr} (entries : List (Expr × Expr)) (h : Expr.Unbraces value value') :
    Expr.UnbracesEntries ((key, value) :: entries) ((key, value') :: entries)
  | tail (entry : Expr × Expr) {entries entries' : List (Expr × Expr)} (h : Expr.UnbracesEntries entries entries') :
    Expr.UnbracesEntries (entry :: entries) (entry :: entries')

/-- The same inside a statement. -/
inductive Statement.Unbraces : Statement → Statement → Prop where
  | bind (name : Ident) {value value' : Expr} (line : Nat) (h : Expr.Unbraces value value') :
    Statement.Unbraces (.bind name value line) (.bind name value' line)
  | leave {value value' : Expr} (line : Nat) (h : Expr.Unbraces value value') :
    Statement.Unbraces (.leave (some value) line) (.leave (some value') line)
  | expression {value value' : Expr} (line : Nat) (h : Expr.Unbraces value value') :
    Statement.Unbraces (.expression value line) (.expression value' line)
  | block {body body' : Block} (h : Block.Unbraces body body') : Statement.Unbraces (.block body) (.block body')

/-- Statements with those of one nested block, not empty, in its place: of one of them, or of one inside them. -/
inductive Statement.UnbracesAll : List Statement → List Statement → Prop where
  | here {statements : List Statement} (line : Nat) (ss : List Statement) (h : statements ≠ []) :
    Statement.UnbracesAll (.block (.mk statements line) :: ss) (statements ++ ss)
  | head {s s' : Statement} (ss : List Statement) (h : Statement.Unbraces s s') :
    Statement.UnbracesAll (s :: ss) (s' :: ss)
  | tail (s : Statement) {ss ss' : List Statement} (h : Statement.UnbracesAll ss ss') :
    Statement.UnbracesAll (s :: ss) (s :: ss')

/-- The same inside a block. -/
inductive Block.Unbraces : Block → Block → Prop where
  | mk {statements statements' : List Statement} (line : Nat) (h : Statement.UnbracesAll statements statements') :
    Block.Unbraces (.mk statements line) (.mk statements' line)

end

/-- There are statements before braces are taken away, and after. -/
theorem Statement.UnbracesAll.ne_nil {ss ss' : List Statement} (h : Statement.UnbracesAll ss ss') :
    ss ≠ [] ∧ ss' ≠ [] := by
  cases h with
  | here line ss h => exact ⟨List.cons_ne_nil _ ss, List.append_ne_nil_of_left_ne_nil h ss⟩
  | head ss => exact ⟨List.cons_ne_nil _ ss, List.cons_ne_nil _ ss⟩
  | tail s => exact ⟨List.cons_ne_nil s _, List.cons_ne_nil s _⟩

mutual

theorem Expr.Unbraces.flattened_eq : ∀ {e e' : Expr}, e.Unbraces e' → e.flattened = e'.flattened
  | _, _, .array _ h | _, _, .arguments _ _ h => by
    simp only [Expr.flattened, Expr.UnbracesAll.flattened_eq h]
  | _, _, .hash _ h => by
    simp only [Expr.flattened, Expr.UnbracesEntries.flattened_eq h]
  | _, _, .operand _ _ h | _, _, .left _ _ _ h | _, _, .right _ _ _ h | _, _, .condition _ _ _ h
  | _, _, .callee _ _ h | _, _, .collection _ _ h | _, _, .position _ _ h => by
    simp only [Expr.flattened, Expr.Unbraces.flattened_eq h]
  | _, _, .consequence _ _ _ h | _, _, .body _ _ h => by
    simp only [Expr.flattened, Block.Unbraces.flattened_eq h]
  | _, _, .alternative _ _ _ h => by
    simp only [Expr.flattened, Block.flattened?, Block.Unbraces.flattened_eq h]

theorem Expr.UnbracesAll.flattened_eq : ∀ {es es' : List Expr}, Expr.UnbracesAll es es' →
    Expr.flattenedAll es = Expr.flattenedAll es'
  | _, _, .head _ h => by simp only [Expr.flattenedAll, Expr.Unbraces.flattened_eq h]
  | _, _, .tail _ h => by simp only [Expr.flattenedAll, Expr.UnbracesAll.flattened_eq h]

theorem Expr.UnbracesEntries.flattened_eq : ∀ {entries entries' : List (Expr × Expr)},
    Expr.UnbracesEntries entries entries' → Expr.flattenedEntries entries = Expr.flattenedEntries entries'
  | _, _, .key _ _ h | _, _, .value _ _ h => by
    simp only [Expr.flattenedEntries, Expr.Unbraces.flattened_eq h]
  | _, _, .tail _ h => by
    simp only [Expr.flattenedEntries, Expr.UnbracesEntries.flattened_eq h]

/-- Taking one pair of braces away leaves the same statements when all are taken away. -/
theorem Statement.Unbraces.flattened_eq : ∀ {s s' : Statement}, s.Unbraces s' → s.flattened = s'.flattened
  | _, _, .bind _ _ h | _, _, .leave _ h | _, _, .expression _ h => by
    simp only [Statement.flattened, Expr.Unbraces.flattened_eq h]
  | _, _, .block (.mk line h) => by
    rw [Statement.flattened_block h.ne_nil.1, Statement.flattened_block h.ne_nil.2,
      Statement.UnbracesAll.flattened_eq h]

/-- **What a program is flattened to does not depend on its braces.** -/
theorem Statement.UnbracesAll.flattened_eq : ∀ {ss ss' : List Statement}, Statement.UnbracesAll ss ss' →
    Statement.flattenedAll ss = Statement.flattenedAll ss'
  | _, _, .here _ _ h => by
    simp only [Statement.flattenedAll, Statement.flattened_block h, Statement.flattenedAll_append]
  | _, _, .head _ h => by simp only [Statement.flattenedAll, Statement.Unbraces.flattened_eq h]
  | _, _, .tail _ h => by simp only [Statement.flattenedAll, Statement.UnbracesAll.flattened_eq h]

theorem Block.Unbraces.flattened_eq : ∀ {body body' : Block}, body.Unbraces body' → body.flattened = body'.flattened
  | _, _, .mk _ h => by simp only [Block.flattened, Statement.UnbracesAll.flattened_eq h]

end

/-- **Braces of nested blocks are not in the text of a program.** -/
theorem Statement.UnbracesAll.render_eq {program other : Program} (h : Statement.UnbracesAll program other) :
    Program.render program = Program.render other := by
  rw [← Statement.renderAll_flattened program, h.flattened_eq, Statement.renderAll_flattened]

end TinyScript
