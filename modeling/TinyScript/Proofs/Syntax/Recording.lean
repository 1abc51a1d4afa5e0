import TinyScript.Syntax.Parse

/-! # Attempts on record

Statements are read by attempts: one that fails is left out, and reading goes on from where it stopped. A
program does not say which attempts were made, so here the rules of the grammar are run with a record of them.
Each attempt is on record with the cursors it ran between, how it ended, and the attempts nested in it, which are
those of the blocks inside the statement.

The rules are those of the grammar, one by one, and **a rule on record does what the rule does**
(`Recorded.erases_program`): the record is only added.
-/

namespace TinyScript

/-- One attempt at a statement. The result is missing where the attempt failed. -/
structure Attempt where
  start : Cursor
  stop : Cursor
  result : Option Statement
  nested : List Attempt

namespace Attempt

mutual

/-- An attempt and all those nested in it, however deeply, in the order in which they start. -/
def all : Attempt → List Attempt
  | ⟨start, stop, result, nested⟩ => ⟨start, stop, result, nested⟩ :: allOf nested

/-- Attempts and all those nested in them, in the order in which they start. -/
def allOf : List Attempt → List Attempt
  | [] => []
  | attempt :: others => attempt.all ++ allOf others

end

theorem allOf_cons (attempt : Attempt) (others : List Attempt) :
    allOf (attempt :: others) = attempt :: (allOf attempt.nested ++ allOf others) := by
  obtain ⟨start, stop, result, nested⟩ := attempt
  rw [allOf, all, List.cons_append]

theorem forall_mem_allOf_cons {p : Attempt → Prop} {attempt : Attempt} {others : List Attempt}
    (h : p attempt) (hn : ∀ a ∈ allOf attempt.nested, p a) (ho : ∀ a ∈ allOf others, p a) :
    ∀ a ∈ allOf (attempt :: others), p a := by
  rw [allOf_cons]
  exact List.forall_mem_cons.mpr ⟨h, List.forall_mem_append.mpr ⟨hn, ho⟩⟩

end Attempt

/-- A rule, and the attempts made on the way. -/
def Recording (α : Type) := Cursor → Outcome α × List Attempt

namespace Recording

variable {α β : Type}

/-- Reads nothing. -/
protected def pure (value : α) : Recording α := fun cursor => (.done value cursor, [])

/-- Reads with one rule, and on with the rule that its result gives. -/
protected def bind (rule : Recording α) (next : α → Recording β) : Recording β := fun cursor =>
  match rule cursor with
  | (.done value after, attempts) =>
    let (outcome, later) := next value after
    (outcome, attempts ++ later)
  | (.failed after, attempts) => (.failed after, attempts)
  | (.starved, attempts) => (.starved, attempts)

instance : Monad Recording where
  pure := Recording.pure
  bind := Recording.bind

/-- A rule that makes no attempts. -/
instance : MonadLift Rule Recording where
  monadLift rule cursor := (rule cursor, [])

/-- A result, or nothing where the rule fails; either way the attempt goes on record, with those that were made
within it. -/
def attempt (rule : Recording Statement) : Recording (Option Statement) := fun cursor =>
  match rule cursor with
  | (.done value after, nested) => (.done (some value) after, [⟨cursor, after, some value, nested⟩])
  | (.failed after, nested) => (.done none after, [⟨cursor, after, none, nested⟩])
  | (.starved, nested) => (.starved, nested)

theorem bind_of_eq_done {rule : Recording α} {next : α → Recording β} {cursor after : Cursor} {value : α}
    (h : rule cursor = (.done value after, [])) : (rule >>= next) cursor = next value after := by
  show Recording.bind rule next cursor = _
  unfold Recording.bind
  rw [h]
  rfl

theorem bind_eq_done {rule : Recording α} {next : α → Recording β} {cursor last : Cursor} {value : β}
    {attempts : List Attempt} (h : (rule >>= next) cursor = (.done value last, attempts)) :
    ∃ first middle before later, rule cursor = (.done first middle, before) ∧
      next first middle = (.done value last, later) ∧ attempts = before ++ later := by
  change Recording.bind rule next cursor = _ at h
  unfold Recording.bind at h
  split at h
  · next first middle before hr =>
    generalize hn : next first middle = ended at h
    obtain ⟨ending, later⟩ := ended
    cases h
    exact ⟨first, middle, before, later, hr, hn, rfl⟩
  · cases h
  · cases h

theorem attempt_eq_done {rule : Recording Statement} {cursor after : Cursor} {result : Option Statement}
    {attempts : List Attempt} (h : rule.attempt cursor = (.done result after, attempts)) :
    ∃ nested, attempts = [⟨cursor, after, result, nested⟩] := by
  unfold attempt at h
  split at h
  · cases h
    exact ⟨_, rfl⟩
  · cases h
    exact ⟨_, rfl⟩
  · cases h

section Erasure

variable {rule : Recording α} {other : Rule α}

/-- Without its record the first rule is the second. -/
def Erases (rule : Recording α) (other : Rule α) : Prop :=
  ∀ cursor, (rule cursor).1 = other cursor

theorem erases_pure (value : α) : (pure value : Recording α).Erases (pure value) :=
  fun _ => rfl

theorem erases_lift (rule : Rule α) : (liftM rule : Recording α).Erases rule :=
  fun _ => rfl

theorem Erases.bind {next : α → Recording β} {later : α → Rule β} (hr : rule.Erases other)
    (hn : ∀ value, (next value).Erases (later value)) : (rule >>= next).Erases (other >>= later) := by
  intro cursor
  show (Recording.bind rule next cursor).1 = Rule.bind other later cursor
  unfold Recording.bind Rule.bind
  rw [← hr cursor]
  obtain ⟨outcome, attempts⟩ := rule cursor
  cases outcome with
  | done value after => exact hn value after
  | failed after => rfl
  | starved => rfl

theorem Erases.map {f : α → β} (hr : rule.Erases other) :
    (rule >>= fun value => (return f value : Recording β)).Erases
      (other >>= fun value => (return f value : Rule β)) :=
  hr.bind fun value => erases_pure (f value)

theorem Erases.ite {c : Prop} [Decidable c] {rule' : Recording α} {other' : Rule α}
    (hr : rule.Erases other) (hr' : rule'.Erases other') :
    (if c then rule else rule').Erases (if c then other else other') := by
  split
  · exact hr
  · exact hr'

theorem Erases.attempt {rule : Recording Statement} {other : Rule Statement} (hr : rule.Erases other) :
    rule.attempt.Erases other.attempt := by
  intro cursor
  unfold Recording.attempt Rule.attempt
  rw [← hr cursor]
  obtain ⟨outcome, attempts⟩ := rule cursor
  cases outcome <;> rfl

end Erasure

end Recording

/-! ## The rules of the grammar, on record

Each is the rule of its name in `Grammar`. Only `attempt` is another one, which keeps the record.
-/

namespace Recorded

open Rule hiding attempt
open Grammar (identAt endsBareReturn numeral parameters entrySeparator)
open Recording (attempt)

mutual

def expression : Nat → Level → Recording Expr
  | 0, _ => starve
  | depth + 1, level => do
    let left ← operand depth
    climb depth level left

def operand : Nat → Recording Expr
  | 0 => starve
  | depth + 1 => do
    let token ← take
    match token.kind with
    | .identifier => return .ident (identAt token)
    | .number => numeral token
    | .string => return .string token.literal token.line
    | .trueWord => return .boolean true token.line
    | .falseWord => return .boolean false token.line
    | .bang =>
      let right ← expression depth .unary
      return .unary .not right token.line
    | .minus =>
      let right ← expression depth .unary
      return .unary .negate right token.line
    | .leftParen =>
      let inner ← expression depth .lowest
      let _ ← expect .rightParen
      return inner
    | .ifWord =>
      let _ ← expect .leftParen
      let condition ← expression depth .lowest
      let _ ← expect .rightParen
      let consequence ← block depth
      let alternative ← alternative depth
      return .conditional condition consequence alternative token.line
    | .fnWord =>
      let parameters ← parameters depth
      let body ← block depth
      return .function parameters body token.line
    | .leftBracket =>
      let elements ← list depth .rightBracket
      return .array elements token.line
    | .leftBrace =>
      let entries ← entries depth
      return .hash entries token.line
    | .openString => fail (.unterminatedString token.line)
    | .illegal => fail (.illegalToken token.literal token.line)
    | kind => fail (.noOperand kind token.line)

def climb : Nat → Level → Expr → Recording Expr
  | 0, _, _ => starve
  | depth + 1, level, left => do
    let token ← peek
    match Continuation.ofKind? token.kind with
    | none => return left
    | some continuation =>
      if level < continuation.level then
        let _ ← take
        let grown ← continued depth left token.line continuation
        climb depth level grown
      else return left

def continued : Nat → Expr → Nat → Continuation → Recording Expr
  | 0, _, _, _ => starve
  | depth + 1, left, line, .operator op => do
    let right ← expression depth op.level
    return .binary op left right line
  | depth + 1, left, line, .call => do
    let arguments ← list depth .rightParen
    return .call left arguments line
  | depth + 1, left, line, .index => do
    let position ← expression depth .lowest
    let _ ← expect .rightBracket
    return .index left position line

def list : Nat → Token.Kind → Recording (List Expr)
  | 0, _ => starve
  | depth + 1, closing => do
    let next ← peek
    if next.kind = closing then
      let _ ← take
      return []
    else
      let first ← expression depth .lowest
      let others ← listTail depth closing
      return first :: others

def listTail : Nat → Token.Kind → Recording (List Expr)
  | 0, _ => starve
  | depth + 1, closing => do
    let next ← peek
    if next.kind = .comma then
      let _ ← take
      let element ← expression depth .lowest
      let others ← listTail depth closing
      return element :: others
    else
      let _ ← expect closing
      return []

def entries : Nat → Recording (List (Expr × Expr))
  | 0 => starve
  | depth + 1 => do
    let next ← peek
    if next.kind = .rightBrace then
      let _ ← take
      return []
    else
      let key ← expression depth .lowest
      let _ ← expect .colon
      let value ← expression depth .lowest
      entrySeparator
      let others ← entries depth
      return (key, value) :: others

def alternative : Nat → Recording (Option Block)
  | 0 => starve
  | depth + 1 => do
    let next ← peek
    if next.kind = .elseWord then
      let _ ← take
      let block ← block depth
      return some block
    else return none

def block : Nat → Recording Block
  | 0 => starve
  | depth + 1 => do
    let brace ← expect .leftBrace
    let statements ← statements depth
    return .mk statements brace.line

def statements : Nat → Recording (List Statement)
  | 0 => starve
  | depth + 1 => do
    let next ← peek
    if next.kind = .rightBrace then
      let _ ← take
      return []
    else if next.kind = .endOfInput then
      let _ ← take
      fail (.unexpected .rightBrace .endOfInput next.line)
    else
      let first ← attempt (statement depth)
      let others ← statements depth
      return first.toList ++ others

def statement : Nat → Recording Statement
  | 0 => starve
  | depth + 1 => do
    let first ← peek
    match first.kind with
    | .letWord =>
      let _ ← take
      let name ← expect .identifier
      let _ ← expect .assign
      let value ← expression depth .lowest
      skipSemicolon
      return .bind (identAt name) value first.line
    | .returnWord =>
      let _ ← take
      let next ← peek
      if endsBareReturn next.kind then
        skipSemicolon
        return .leave none first.line
      else
        let value ← expression depth .lowest
        skipSemicolon
        return .leave (some value) first.line
    | _ =>
      let value ← expression depth .lowest
      skipSemicolon
      return .expression value first.line

end

def program : Nat → Recording Program
  | 0 => starve
  | depth + 1 => do
    let next ← peek
    if next.kind = .endOfInput then return []
    else
      let first ← attempt (statement depth)
      let others ← program depth
      return first.toList ++ others

/-! ## The record is only added -/

/-- Every rule on record is the rule with a record, within a bound. -/
structure Erases (depth : Nat) : Prop where
  expression : ∀ level, (expression depth level).Erases (Grammar.expression depth level)
  operand : (operand depth).Erases (Grammar.operand depth)
  climb : ∀ level left, (climb depth level left).Erases (Grammar.climb depth level left)
  continued : ∀ left line continuation,
    (continued depth left line continuation).Erases (Grammar.continued depth left line continuation)
  list : ∀ closing, (list depth closing).Erases (Grammar.list depth closing)
  listTail : ∀ closing, (listTail depth closing).Erases (Grammar.listTail depth closing)
  entries : (entries depth).Erases (Grammar.entries depth)
  alternative : (alternative depth).Erases (Grammar.alternative depth)
  block : (block depth).Erases (Grammar.block depth)
  statements : (statements depth).Erases (Grammar.statements depth)
  statement : (statement depth).Erases (Grammar.statement depth)

namespace Erases

open Recording

variable {depth : Nat}

theorem operand_succ (e : Erases depth) :
    (Recorded.operand (depth + 1)).Erases (Grammar.operand (depth + 1)) := by
  simp only [Recorded.operand, Grammar.operand]
  refine (erases_lift take).bind fun token => ?_
  cases token.kind with
  | identifier => exact erases_pure _
  | number => exact erases_lift (numeral token)
  | string => exact erases_pure _
  | trueWord => exact erases_pure _
  | falseWord => exact erases_pure _
  | bang => exact (e.expression .unary).map
  | minus => exact (e.expression .unary).map
  | leftParen => exact (e.expression .lowest).bind fun _ => (erases_lift (expect _)).map
  | ifWord =>
    refine (erases_lift (expect _)).bind fun _ => (e.expression .lowest).bind fun condition => ?_
    exact (erases_lift (expect _)).bind fun _ => e.block.bind fun consequence => e.alternative.map
  | fnWord => exact (erases_lift (parameters depth)).bind fun _ => e.block.map
  | leftBracket => exact (e.list .rightBracket).map
  | leftBrace => exact e.entries.map
  | _ => exact erases_lift (fail _)

theorem climb_succ (e : Erases depth) (level : Level) (left : Expr) :
    (Recorded.climb (depth + 1) level left).Erases (Grammar.climb (depth + 1) level left) := by
  simp only [Recorded.climb, Grammar.climb]
  refine (erases_lift peek).bind fun token => ?_
  cases Continuation.ofKind? token.kind with
  | none => exact erases_pure _
  | some continuation =>
    refine Erases.ite ?_ (erases_pure _)
    exact (erases_lift take).bind fun _ => (e.continued left token.line continuation).bind fun grown =>
      e.climb level grown

theorem continued_succ (e : Erases depth) (left : Expr) (line : Nat) (continuation : Continuation) :
    (Recorded.continued (depth + 1) left line continuation).Erases
      (Grammar.continued (depth + 1) left line continuation) := by
  cases continuation with
  | operator op => exact (e.expression op.level).map
  | call => exact (e.list .rightParen).map
  | index => exact (e.expression .lowest).bind fun _ => (erases_lift (expect _)).map

theorem list_succ (e : Erases depth) (closing : Token.Kind) :
    (Recorded.list (depth + 1) closing).Erases (Grammar.list (depth + 1) closing) := by
  refine (erases_lift peek).bind fun next => Erases.ite ?_ ?_
  · exact (erases_lift take).map
  · exact (e.expression .lowest).bind fun _ => (e.listTail closing).map

theorem listTail_succ (e : Erases depth) (closing : Token.Kind) :
    (Recorded.listTail (depth + 1) closing).Erases (Grammar.listTail (depth + 1) closing) := by
  refine (erases_lift peek).bind fun next => Erases.ite ?_ ?_
  · exact (erases_lift take).bind fun _ => (e.expression .lowest).bind fun _ => (e.listTail closing).map
  · exact (erases_lift (expect closing)).map

theorem entries_succ (e : Erases depth) :
    (Recorded.entries (depth + 1)).Erases (Grammar.entries (depth + 1)) := by
  refine (erases_lift peek).bind fun next => Erases.ite ?_ ?_
  · exact (erases_lift take).map
  · refine (e.expression .lowest).bind fun key => (erases_lift (expect _)).bind fun _ => ?_
    exact (e.expression .lowest).bind fun value => (erases_lift entrySeparator).bind fun _ => e.entries.map

theorem alternative_succ (e : Erases depth) :
    (Recorded.alternative (depth + 1)).Erases (Grammar.alternative (depth + 1)) := by
  refine (erases_lift peek).bind fun next => Erases.ite ?_ (erases_pure none)
  exact (erases_lift take).bind fun _ => e.block.map

theorem block_succ (e : Erases depth) : (Recorded.block (depth + 1)).Erases (Grammar.block (depth + 1)) :=
  (erases_lift (expect _)).bind fun _ => e.statements.map

theorem statements_succ (e : Erases depth) :
    (Recorded.statements (depth + 1)).Erases (Grammar.statements (depth + 1)) := by
  refine (erases_lift peek).bind fun next => Erases.ite ?_ (Erases.ite ?_ ?_)
  · exact (erases_lift take).map
  · exact (erases_lift take).bind fun _ => erases_lift (fail _)
  · exact e.statement.attempt.bind fun first => e.statements.map

theorem statement_succ (e : Erases depth) :
    (Recorded.statement (depth + 1)).Erases (Grammar.statement (depth + 1)) := by
  simp only [Recorded.statement, Grammar.statement]
  refine (erases_lift peek).bind fun first => ?_
  cases first.kind with
  | letWord =>
    refine (erases_lift take).bind fun _ => (erases_lift (expect _)).bind fun name => ?_
    refine (erases_lift (expect _)).bind fun _ => (e.expression .lowest).bind fun value => ?_
    exact (erases_lift skipSemicolon).map
  | returnWord =>
    refine (erases_lift take).bind fun _ => (erases_lift peek).bind fun next => Erases.ite ?_ ?_
    · exact (erases_lift skipSemicolon).map
    · exact (e.expression .lowest).bind fun _ => (erases_lift skipSemicolon).map
  | _ => exact (e.expression .lowest).bind fun _ => (erases_lift skipSemicolon).map

end Erases

/-- The record is only added, within any bound. -/
theorem erases (depth : Nat) : Erases depth := by
  induction depth with
  | zero => constructor <;> intros <;> exact Recording.erases_lift starve
  | succ depth e =>
    exact {
      expression := fun level => e.operand.bind fun left => e.climb level left
      operand := e.operand_succ
      climb := e.climb_succ
      continued := e.continued_succ
      list := e.list_succ
      listTail := e.listTail_succ
      entries := e.entries_succ
      alternative := e.alternative_succ
      block := e.block_succ
      statements := e.statements_succ
      statement := e.statement_succ }

/-- **Without its record, the rule of a program on record is the rule of a program.** -/
theorem erases_program : ∀ depth : Nat, (program depth).Erases (Grammar.program depth)
  | 0 => Recording.erases_lift starve
  | depth + 1 => by
    refine (Recording.erases_lift peek).bind fun next => Recording.Erases.ite (Recording.erases_pure _) ?_
    exact (erases depth).statement.attempt.bind fun first => (erases_program depth).map

end Recorded

/-- The attempts that reading a feed makes at the outermost level, with those nested in them. -/
def Feed.attempts (feed : Feed) : List Attempt :=
  (Recorded.program feed.depthBound ⟨feed, []⟩).2

end TinyScript
