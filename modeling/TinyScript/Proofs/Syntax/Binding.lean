import TinyScript.Syntax.Parse

/-! # How tightly the next token binds

A rule that climbs levels goes on as long as the next token continues the expression and binds tighter than
the rule's level, so where it stops is a matter of the next token's binding alone. Tokens that continue
nothing bind at the lowest level.
-/

namespace TinyScript

/-- How tightly the next token would continue an expression. -/
def Feed.binding (feed : Feed) : Nat := (Level.ofKind feed.head.kind).rank

/-- The rank at which an expression is written that is read at a level. The operand of a prefix may be
another prefix. -/
def Level.floor (level : Level) : Nat := min (level.rank + 1) Level.unary.rank

theorem Level.rank_le_call (level : Level) : level.rank ≤ Level.call.rank := by
  cases level <;> decide

theorem Level.floor_le_unary (level : Level) : level.floor ≤ Level.unary.rank :=
  Nat.min_le_right _ _

/-- What is written at a tighter level is tight enough for an operand of a looser one. -/
theorem Level.floor_le_of_lt {level tighter : Level} (h : level < tighter) :
    level.floor ≤ tighter.rank :=
  Nat.le_trans (Nat.min_le_left _ _) h

/-- All binary operators associate to the left. -/
theorem BinaryOp.floor_level (op : BinaryOp) : op.level.floor = op.level.rank + 1 := by
  cases op <;> rfl

theorem Continuation.eq_kind_of_ofKind? {kind : Token.Kind} {op : BinaryOp}
    (h : Continuation.ofKind? kind = some (.operator op)) : kind = op.kind := by
  cases kind <;> cases h <;> rfl

theorem Continuation.eq_leftParen_of_ofKind? {kind : Token.Kind}
    (h : Continuation.ofKind? kind = some .call) : kind = .leftParen := by
  cases kind <;> cases h
  rfl

theorem Continuation.eq_leftBracket_of_ofKind? {kind : Token.Kind}
    (h : Continuation.ofKind? kind = some .index) : kind = .leftBracket := by
  cases kind <;> cases h
  rfl

namespace Feed

variable {feed : Feed}

/-- A token that continues an expression binds at the level of what it starts. -/
theorem binding_of_ofKind?_eq_some {continuation : Continuation}
    (h : Continuation.ofKind? feed.head.kind = some continuation) :
    feed.binding = continuation.level.rank := by
  simp only [binding, Level.ofKind, h]

/-- Any other token does not bind, so it ends every expression. -/
theorem binding_of_ofKind?_eq_none (h : Continuation.ofKind? feed.head.kind = none) :
    feed.binding = 0 := by
  simp only [binding, Level.ofKind, h, Level.rank]

theorem binding_le_call : feed.binding ≤ Level.call.rank :=
  Level.rank_le_call _

/-- Where the next token binds loosest it does not continue an expression. -/
theorem ofKind?_eq_none (h : feed.binding ≤ Level.lowest.rank) :
    Continuation.ofKind? feed.head.kind = none := by
  cases hc : Continuation.ofKind? feed.head.kind with
  | none => rfl
  | some continuation =>
    rw [binding_of_ofKind?_eq_some hc] at h
    cases continuation with
    | operator op => cases op <;> exact absurd h (by decide)
    | call => exact absurd h (by decide)
    | index => exact absurd h (by decide)

end Feed

end TinyScript
