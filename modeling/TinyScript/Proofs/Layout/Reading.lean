import TinyScript.Proofs.Layout.Relining

/-! # Reading does not depend on lines

The rules of the grammar look at the kinds and the texts of tokens and only pass their lines on. So what a
relined feed is read as is what the feed is read as, relined: `Feed.parse_relined`.

`rule.Relines f g other` says that `other` does on relined cursors what `rule` does, its result changed by
`g`. There is one lemma for each way to make rules of rules, and one for each rule of the grammar.
-/

namespace TinyScript

/-- A cursor on other lines. -/
def Cursor.relined (f : Nat → Nat) (cursor : Cursor) : Cursor :=
  ⟨cursor.feed.relined f, cursor.errors.map (SyntaxError.relined f)⟩

/-- The end of a rule, on other lines and with another result. -/
def Outcome.relined {α β : Type} (f : Nat → Nat) (g : α → β) : Outcome α → Outcome β
  | .done value next => .done (g value) (next.relined f)
  | .failed next => .failed (next.relined f)
  | .starved => .starved

namespace Rule

variable {α β γ δ : Type} {f : Nat → Nat} {g : α → β} {h : γ → δ} {rule : Rule α} {other : Rule β}

/-- The second rule does on other lines what the first one does. -/
def Relines (f : Nat → Nat) (g : α → β) (rule : Rule α) (other : Rule β) : Prop :=
  ∀ cursor, other (cursor.relined f) = (rule cursor).relined f g

theorem relines_pure (value : α) : (pure value : Rule α).Relines f g (pure (g value)) :=
  fun _ => rfl

theorem relines_starve : (starve : Rule α).Relines f g starve :=
  fun _ => rfl

theorem relines_fail (error : SyntaxError) : (fail error : Rule α).Relines f g (fail (error.relined f)) :=
  fun _ => rfl

/-- Rules in sequence read the same but for lines if each of them does. -/
theorem Relines.bind {next : α → Rule γ} {later : β → Rule δ} (hr : rule.Relines f g other)
    (hn : ∀ value, (next value).Relines f h (later (g value))) :
    (rule >>= next).Relines f h (other >>= later) := by
  intro cursor
  show Rule.bind other later (cursor.relined f) = (Rule.bind rule next cursor).relined f h
  unfold Rule.bind
  rw [hr cursor]
  cases rule cursor with
  | done value after => exact hn value after
  | failed after => rfl
  | starved => rfl

theorem Relines.map {next : α → γ} {later : β → δ} (hr : rule.Relines f g other)
    (hn : ∀ value, later (g value) = h (next value)) :
    (rule >>= fun value => (return next value : Rule γ)).Relines f h
      (other >>= fun value => (return later value : Rule δ)) := by
  refine hr.bind fun value => ?_
  rw [hn value]
  exact relines_pure _

theorem Relines.discard (hr : rule.Relines f g other) :
    (Functor.discard rule).Relines f id (Functor.discard other) :=
  hr.bind fun _ => relines_pure _

theorem Relines.ite {c : Prop} [Decidable c] {rule' : Rule α} {other' : Rule β}
    (hr : rule.Relines f g other) (hr' : rule'.Relines f g other') :
    (if c then rule else rule').Relines f g (if c then other else other') := by
  split
  · exact hr
  · exact hr'

theorem relines_peek : peek.Relines f (Token.relined f) peek := by
  intro cursor
  show Outcome.done _ _ = Outcome.done _ _
  rw [← Feed.head_relined]
  rfl

theorem relines_take : take.Relines f (Token.relined f) take := by
  intro cursor
  show Outcome.done (cursor.feed.relined f).head ⟨(cursor.feed.relined f).rest, _⟩ = _
  rw [Feed.head_relined, Feed.rest_relined]
  rfl

/-- A token is expected by its kind. -/
theorem relines_expect (kind : Token.Kind) : (expect kind).Relines f (Token.relined f) (expect kind) :=
  relines_peek.bind fun _ => relines_take.ite (relines_fail _)

theorem relines_skipSemicolon : skipSemicolon.Relines f id skipSemicolon :=
  relines_peek.bind fun _ => relines_take.discard.ite (relines_pure _)

/-- An attempt that fails is left at the same token. -/
theorem Relines.attempt (hr : rule.Relines f g other) :
    rule.attempt.Relines f (Option.map g) other.attempt := by
  intro cursor
  unfold Rule.attempt
  rw [hr cursor]
  cases rule cursor <;> rfl

end Rule

namespace Grammar

open Rule

variable {f : Nat → Nat}

/-- A number is read from its literal, and a number that is too large is reported on the new line. -/
theorem relines_numeral (token : Token) :
    (numeral token).Relines f (Expr.relined f) (numeral (token.relined f)) := by
  unfold numeral
  dsimp only [Token.relined]
  cases Single.read? token.literal with
  | none => exact relines_fail _
  | some value => exact (relines_pure _).ite (relines_fail _)

theorem relines_parameterTail : ∀ depth : Nat,
    (parameterTail depth).Relines f (List.map (Ident.relined f)) (parameterTail depth)
  | 0 => relines_starve
  | depth + 1 => by
    refine relines_peek.bind fun next => Relines.ite ?_ ?_
    · exact relines_take.bind fun _ => (relines_expect _).bind fun _ =>
        (relines_parameterTail depth).map fun _ => rfl
    · exact (relines_expect _).map fun _ => rfl

theorem relines_parameters (depth : Nat) :
    (parameters depth).Relines f (List.map (Ident.relined f)) (parameters depth) := by
  refine (relines_expect _).bind fun _ => relines_peek.bind fun next => Relines.ite ?_ ?_
  · exact relines_take.map fun _ => rfl
  · exact (relines_expect _).bind fun _ => (relines_parameterTail depth).map fun _ => rfl

theorem relines_entrySeparator : entrySeparator.Relines f id entrySeparator :=
  relines_peek.bind fun _ => (relines_pure _).ite (relines_expect _).discard

/-- Every rule does on other lines what it does, within a bound. -/
structure Relines (f : Nat → Nat) (depth : Nat) : Prop where
  expression : ∀ level, (expression depth level).Relines f (Expr.relined f) (expression depth level)
  operand : (operand depth).Relines f (Expr.relined f) (operand depth)
  climb : ∀ level left,
    (climb depth level left).Relines f (Expr.relined f) (climb depth level (left.relined f))
  continued : ∀ left line continuation,
    (continued depth left line continuation).Relines f (Expr.relined f)
      (continued depth (left.relined f) (f line) continuation)
  list : ∀ closing, (list depth closing).Relines f (Expr.relinedAll f) (list depth closing)
  listTail : ∀ closing, (listTail depth closing).Relines f (Expr.relinedAll f) (listTail depth closing)
  entries : (entries depth).Relines f (Expr.relinedEntries f) (entries depth)
  alternative : (alternative depth).Relines f (Block.relined? f) (alternative depth)
  block : (block depth).Relines f (Block.relined f) (block depth)
  statements : (statements depth).Relines f (Statement.relinedAll f) (statements depth)
  statement : (statement depth).Relines f (Statement.relined f) (statement depth)

namespace Relines

variable {depth : Nat}

/-- The kind of the first token decides what operand is read. -/
theorem operand_succ (r : Relines f depth) :
    (Grammar.operand (depth + 1)).Relines f (Expr.relined f) (Grammar.operand (depth + 1)) := by
  simp only [Grammar.operand]
  refine relines_take.bind fun token => ?_
  obtain ⟨kind, literal, line⟩ := token
  cases kind with
  | identifier => exact relines_pure _
  | number => exact relines_numeral _
  | string => exact relines_pure _
  | trueWord => exact relines_pure _
  | falseWord => exact relines_pure _
  | bang => exact (r.expression .unary).map fun _ => rfl
  | minus => exact (r.expression .unary).map fun _ => rfl
  | leftParen => exact (r.expression .lowest).bind fun _ => (relines_expect _).map fun _ => rfl
  | ifWord =>
    refine (relines_expect _).bind fun _ => (r.expression .lowest).bind fun condition => ?_
    refine (relines_expect _).bind fun _ => r.block.bind fun consequence => ?_
    exact r.alternative.map fun _ => rfl
  | fnWord => exact (relines_parameters depth).bind fun _ => r.block.map fun _ => rfl
  | leftBracket => exact (r.list .rightBracket).map fun _ => rfl
  | leftBrace => exact r.entries.map fun _ => rfl
  | _ => exact relines_fail _

/-- Which operator goes on depends on kinds of tokens alone. -/
theorem climb_succ (r : Relines f depth) (level : Level) (left : Expr) :
    (Grammar.climb (depth + 1) level left).Relines f (Expr.relined f)
      (Grammar.climb (depth + 1) level (left.relined f)) := by
  simp only [Grammar.climb]
  refine relines_peek.bind fun token => ?_
  obtain ⟨kind, literal, line⟩ := token
  dsimp only [Token.relined]
  cases Continuation.ofKind? kind with
  | none => exact relines_pure _
  | some continuation =>
    refine Relines.ite ?_ (relines_pure _)
    exact relines_take.bind fun _ => (r.continued left line continuation).bind fun grown =>
      r.climb level grown

theorem continued_succ (r : Relines f depth) (left : Expr) (line : Nat) (continuation : Continuation) :
    (Grammar.continued (depth + 1) left line continuation).Relines f (Expr.relined f)
      (Grammar.continued (depth + 1) (left.relined f) (f line) continuation) := by
  cases continuation with
  | operator op => exact (r.expression op.level).map fun _ => rfl
  | call => exact (r.list .rightParen).map fun _ => rfl
  | index => exact (r.expression .lowest).bind fun _ => (relines_expect _).map fun _ => rfl

theorem list_succ (r : Relines f depth) (closing : Token.Kind) :
    (Grammar.list (depth + 1) closing).Relines f (Expr.relinedAll f) (Grammar.list (depth + 1) closing) := by
  refine relines_peek.bind fun next => Relines.ite ?_ ?_
  · exact relines_take.map fun _ => rfl
  · exact (r.expression .lowest).bind fun _ => (r.listTail closing).map fun _ => rfl

theorem listTail_succ (r : Relines f depth) (closing : Token.Kind) :
    (Grammar.listTail (depth + 1) closing).Relines f (Expr.relinedAll f)
      (Grammar.listTail (depth + 1) closing) := by
  refine relines_peek.bind fun next => Relines.ite ?_ ?_
  · exact relines_take.bind fun _ => (r.expression .lowest).bind fun _ =>
      (r.listTail closing).map fun _ => rfl
  · exact (relines_expect closing).map fun _ => rfl

/-- A comma goes on to another entry unless the hash ends there. -/
theorem entries_succ (r : Relines f depth) :
    (Grammar.entries (depth + 1)).Relines f (Expr.relinedEntries f) (Grammar.entries (depth + 1)) := by
  refine relines_peek.bind fun next => Relines.ite ?_ ?_
  · exact relines_take.map fun _ => rfl
  · refine (r.expression .lowest).bind fun key => (relines_expect _).bind fun _ => ?_
    refine (r.expression .lowest).bind fun value => relines_entrySeparator.bind fun _ => ?_
    exact r.entries.map fun _ => rfl

theorem alternative_succ (r : Relines f depth) :
    (Grammar.alternative (depth + 1)).Relines f (Block.relined? f) (Grammar.alternative (depth + 1)) := by
  refine relines_peek.bind fun next => Relines.ite ?_ (relines_pure none)
  exact relines_take.bind fun _ => r.block.map fun _ => rfl

theorem block_succ (r : Relines f depth) :
    (Grammar.block (depth + 1)).Relines f (Block.relined f) (Grammar.block (depth + 1)) :=
  (relines_expect _).bind fun _ => r.statements.map fun _ => rfl

/-- An attempt at a statement, and those read after it. -/
theorem attempt_bind (r : Relines f depth) {rest : Rule (List Statement)}
    (hr : rest.Relines f (Statement.relinedAll f) rest) :
    (attempt (Grammar.statement depth) >>= fun first => rest >>= fun others =>
      (return first.toList ++ others : Rule (List Statement))).Relines f (Statement.relinedAll f)
    (attempt (Grammar.statement depth) >>= fun first => rest >>= fun others =>
      (return first.toList ++ others : Rule (List Statement))) := by
  refine r.statement.attempt.bind fun first => hr.map fun others => ?_
  rw [Statement.relinedAll_append]
  cases first <;> rfl

theorem statements_succ (r : Relines f depth) :
    (Grammar.statements (depth + 1)).Relines f (Statement.relinedAll f)
      (Grammar.statements (depth + 1)) := by
  refine relines_peek.bind fun next => Relines.ite ?_ (Relines.ite ?_ ?_)
  · exact relines_take.map fun _ => rfl
  · exact relines_take.bind fun _ => relines_fail _
  · exact r.attempt_bind r.statements

/-- The kind of the first token decides what statement is read. -/
theorem statement_succ (r : Relines f depth) :
    (Grammar.statement (depth + 1)).Relines f (Statement.relined f) (Grammar.statement (depth + 1)) := by
  simp only [Grammar.statement]
  refine relines_peek.bind fun first => ?_
  have expression : (Grammar.expression depth .lowest >>= fun value => skipSemicolon >>= fun _ =>
        (return .expression value first.line : Rule Statement)).Relines f (Statement.relined f)
      (Grammar.expression depth .lowest >>= fun value => skipSemicolon >>= fun _ =>
        (return .expression value (f first.line) : Rule Statement)) :=
    (r.expression .lowest).bind fun _ => relines_skipSemicolon.map fun _ => rfl
  obtain ⟨kind, literal, line⟩ := first
  cases kind with
  | letWord =>
    refine relines_take.bind fun _ => (relines_expect _).bind fun name => ?_
    refine (relines_expect _).bind fun _ => (r.expression .lowest).bind fun value => ?_
    exact relines_skipSemicolon.map fun _ => rfl
  | returnWord =>
    refine relines_take.bind fun _ => relines_peek.bind fun next => Relines.ite ?_ ?_
    · exact relines_skipSemicolon.map fun _ => rfl
    · exact (r.expression .lowest).bind fun _ => relines_skipSemicolon.map fun _ => rfl
  | _ => exact expression

end Relines

/-- The grammar does not depend on lines within any bound. -/
theorem relines (f : Nat → Nat) (depth : Nat) : Relines f depth := by
  induction depth with
  | zero => constructor <;> intros <;> exact relines_starve
  | succ depth r =>
    exact {
      expression := fun level => r.operand.bind fun left => r.climb level left
      operand := r.operand_succ
      climb := r.climb_succ
      continued := r.continued_succ
      list := r.list_succ
      listTail := r.listTail_succ
      entries := r.entries_succ
      alternative := r.alternative_succ
      block := r.block_succ
      statements := r.statements_succ
      statement := r.statement_succ }

theorem relines_program : ∀ depth : Nat,
    (program depth).Relines f (Statement.relinedAll f) (program depth)
  | 0 => relines_starve
  | depth + 1 => by
    have nothing : (pure [] : Rule (List Statement)).Relines f (Statement.relinedAll f) (pure []) :=
      relines_pure []
    exact relines_peek.bind fun _ => nothing.ite ((relines f depth).attempt_bind (relines_program depth))

end Grammar

/-- **A relined feed is read as what the feed is read as, relined.** -/
theorem Feed.parse_relined (f : Nat → Nat) (feed : Feed) :
    (feed.relined f).parse = feed.parse.relined f := by
  unfold parse
  rw [depthBound_relined]
  have h := Grammar.relines_program (f := f) feed.depthBound ⟨feed, []⟩
  have hc : Grammar.program feed.depthBound ⟨feed.relined f, []⟩ = _ := h
  rw [hc]
  cases Grammar.program feed.depthBound ⟨feed, []⟩ with
  | done program next => exact congrArg (Parse.mk _) List.map_reverse.symm
  | failed next => exact congrArg (Parse.mk _) List.map_reverse.symm
  | starved => rfl

end TinyScript
