import TinyScript.Syntax.Parse

/-! # The bound on rule calls is never met

Rules carry a bound on the depth of calls. At most four calls are made before the next token is taken, so
four times the number of tokens, plus four, is enough. The main statement is `program_isDone`: within that
bound the rule of a program completes, whatever the tokens are. Hence `Feed.parse` reads every feed, and
its two other cases never arise.

The proof counts what is left to read. `Ends rule cursor bound` says that a rule, from a cursor on, is not
starved and leaves at most `bound` tokens. An operand takes its first token in any case, so what begins
with one leaves fewer tokens than there were.
-/

namespace TinyScript

/-- How many tokens are left to read. -/
def Cursor.remaining (cursor : Cursor) : Nat := cursor.feed.tokens.length

/-- From a cursor on, a rule is not starved and leaves at most `bound` tokens. -/
def Rule.Ends {α : Type} (rule : Rule α) (cursor : Cursor) (bound : Nat) : Prop :=
  match rule cursor with
  | .done _ next => next.remaining ≤ bound
  | .failed next => next.remaining ≤ bound
  | .starved => False

namespace Rule

variable {α β : Type} {cursor : Cursor} {bound : Nat}

/-- A rule that ends within a bound ends within a larger one. -/
theorem Ends.mono {rule : Rule α} {larger : Nat} (h : rule.Ends cursor bound) (hb : bound ≤ larger) :
    rule.Ends cursor larger := by
  unfold Ends at h ⊢
  split at h
  · exact Nat.le_trans h hb
  · exact Nat.le_trans h hb
  · exact h

theorem ends_pure (value : α) : (pure value : Rule α).Ends cursor cursor.remaining :=
  Nat.le_refl _

theorem ends_fail (error : SyntaxError) : (fail error : Rule α).Ends cursor cursor.remaining :=
  Nat.le_refl _

/-- The second rule starts with what the first one leaves. -/
theorem Ends.bind {rule : Rule α} {next : α → Rule β} (h : rule.Ends cursor bound)
    (hn : ∀ value after, rule cursor = .done value after → after.remaining ≤ bound →
      (next value).Ends after bound) :
    (rule >>= next).Ends cursor bound := by
  show Ends (Rule.bind rule next) cursor bound
  unfold Ends Rule.bind at *
  cases hr : rule cursor with
  | done value after => rw [hr] at h; exact hn value after hr h
  | failed after => rw [hr] at h; exact h
  | starved => rw [hr] at h; exact h

/-- Looking at the next token leaves everything as it is. -/
theorem Ends.bind_peek {next : Token → Rule β} (h : (next cursor.feed.head).Ends cursor bound) :
    (peek >>= next).Ends cursor bound := h

/-- Taking the next token leaves one fewer. -/
theorem Ends.bind_take {next : Token → Rule β}
    (h : ∀ after : Cursor, after.remaining = cursor.remaining - 1 →
      (next cursor.feed.head).Ends after bound) :
    (take >>= next).Ends cursor bound := by
  refine h ⟨cursor.feed.rest, cursor.errors⟩ ?_
  show cursor.feed.tokens.tail.length = cursor.feed.tokens.length - 1
  exact List.length_tail

/-- A token that is not the end of the input was still to be read. -/
theorem remaining_pos (h : cursor.feed.head.kind ≠ .endOfInput) : 0 < cursor.remaining := by
  cases hc : cursor.feed.tokens with
  | nil => exact absurd (by simp [Feed.head, hc, Feed.atEnd, Token.atEnd]) h
  | cons token tokens => simp [Cursor.remaining, hc]

theorem expect_eq_done {kind : Token.Kind} {token : Token} {after : Cursor}
    (h : expect kind cursor = .done token after) :
    cursor.feed.head.kind = kind ∧ after.remaining = cursor.remaining - 1 := by
  by_cases hk : cursor.feed.head.kind = kind
  · have he : expect kind cursor = .done cursor.feed.head ⟨cursor.feed.rest, cursor.errors⟩ := by
      show (if cursor.feed.head.kind = kind then take else fail _) cursor = _
      rw [if_pos hk]
      rfl
    rw [he] at h
    cases h
    exact ⟨hk, List.length_tail⟩
  · have he : ∃ errors, expect kind cursor = .failed ⟨cursor.feed, errors⟩ := by
      refine ⟨.unexpected kind cursor.feed.head.kind cursor.feed.head.line :: cursor.errors, ?_⟩
      show (if cursor.feed.head.kind = kind then take else fail _) cursor = _
      rw [if_neg hk]
      rfl
    obtain ⟨errors, he⟩ := he
    rw [he] at h
    cases h

theorem ends_expect (kind : Token.Kind) : (expect kind).Ends cursor cursor.remaining := by
  unfold expect
  refine Ends.bind_peek ?_
  split
  · show cursor.feed.tokens.tail.length ≤ cursor.feed.tokens.length
    rw [List.length_tail]
    omega
  · exact ends_fail _

/-- After a required token that is not the end of the input, one token fewer is left. -/
theorem Ends.bind_expect {kind : Token.Kind} {next : Token → Rule β} (hk : kind ≠ .endOfInput)
    (hb : cursor.remaining ≤ bound)
    (h : ∀ token after, after.remaining + 1 = cursor.remaining → (next token).Ends after bound) :
    (expect kind >>= next).Ends cursor bound := by
  refine Ends.bind ((ends_expect kind).mono hb) fun token after he _ => h token after ?_
  obtain ⟨hkind, hr⟩ := expect_eq_done he
  have := @remaining_pos cursor (by rw [hkind]; exact hk)
  omega

theorem ends_skipSemicolon : skipSemicolon.Ends cursor cursor.remaining := by
  unfold skipSemicolon
  refine Ends.bind_peek ?_
  split
  · show cursor.feed.tokens.tail.length ≤ cursor.feed.tokens.length
    rw [List.length_tail]
    omega
  · exact ends_pure ()

/-- An attempt that fails goes on from where its rule stopped. -/
theorem ends_attempt {rule : Rule α} (h : rule.Ends cursor bound) : rule.attempt.Ends cursor bound := by
  unfold Ends attempt at *
  cases hr : rule cursor with
  | done value after => rw [hr] at h; exact h
  | failed after => rw [hr] at h; exact h
  | starved => rw [hr] at h; exact h

/-- An attempt at a rule that is not starved completes. -/
theorem attempt_isDone {rule : Rule α} (h : rule.Ends cursor bound) :
    ∃ value after, rule.attempt cursor = .done value after ∧ after.remaining ≤ bound := by
  unfold Ends at h
  unfold attempt
  cases hr : rule cursor with
  | done value after => rw [hr] at h; exact ⟨_, _, rfl, h⟩
  | failed after => rw [hr] at h; exact ⟨_, _, rfl, h⟩
  | starved => rw [hr] at h; exact h.elim

end Rule

namespace Grammar

open Rule

/-- What a bound of `depth` is enough for, rule by rule: four calls for each token left, and as many as
the rule makes before it takes one. -/
structure Enough (depth : Nat) : Prop where
  expression : ∀ level cursor, 4 * cursor.remaining + 2 ≤ depth →
    (expression depth level).Ends cursor (cursor.remaining - 1)
  operand : ∀ cursor, 4 * cursor.remaining + 1 ≤ depth →
    (operand depth).Ends cursor (cursor.remaining - 1)
  climb : ∀ level left cursor, 4 * cursor.remaining + 1 ≤ depth →
    (climb depth level left).Ends cursor cursor.remaining
  continued : ∀ left line continuation cursor, 4 * cursor.remaining + 4 ≤ depth →
    (continued depth left line continuation).Ends cursor cursor.remaining
  list : ∀ closing cursor, closing ≠ .endOfInput → 4 * cursor.remaining + 3 ≤ depth →
    (list depth closing).Ends cursor cursor.remaining
  listTail : ∀ closing cursor, closing ≠ .endOfInput → 4 * cursor.remaining + 1 ≤ depth →
    (listTail depth closing).Ends cursor cursor.remaining
  entries : ∀ cursor, 4 * cursor.remaining + 3 ≤ depth →
    (entries depth).Ends cursor cursor.remaining
  alternative : ∀ cursor, 4 * cursor.remaining + 1 ≤ depth →
    (alternative depth).Ends cursor cursor.remaining
  block : ∀ cursor, 4 * cursor.remaining + 1 ≤ depth → (block depth).Ends cursor cursor.remaining
  statements : ∀ cursor, 4 * cursor.remaining + 4 ≤ depth →
    (statements depth).Ends cursor cursor.remaining
  statement : ∀ cursor, 4 * cursor.remaining + 3 ≤ depth →
    (statement depth).Ends cursor (cursor.remaining - 1)

theorem ends_numeral {token : Token} {cursor : Cursor} :
    (numeral token).Ends cursor cursor.remaining := by
  unfold numeral
  split
  · split
    · exact ends_pure _
    · exact ends_fail _
  · exact ends_fail _

theorem ends_entrySeparator {cursor : Cursor} : entrySeparator.Ends cursor cursor.remaining := by
  unfold entrySeparator
  refine Ends.bind_peek ?_
  split
  · exact ends_pure ()
  · exact Ends.bind (ends_expect _) fun _ _ _ h => (ends_pure ()).mono h

theorem ends_parameterTail : ∀ (depth : Nat) (cursor : Cursor), cursor.remaining + 1 ≤ depth →
    (parameterTail depth).Ends cursor cursor.remaining
  | 0, _, h => absurd h (by omega)
  | depth + 1, cursor, h => by
    unfold parameterTail
    refine Ends.bind_peek ?_
    split
    · next hk =>
      have hpos := @remaining_pos cursor (by rw [hk]; decide)
      refine Ends.bind_take fun after ha => ?_
      refine Ends.bind_expect (by decide) (by omega) fun token later hl => ?_
      refine Ends.bind ((ends_parameterTail depth later (by omega)).mono (by omega)) fun _ _ _ hb => ?_
      exact (ends_pure _).mono hb
    · exact Ends.bind (ends_expect _) fun _ _ _ hb => (ends_pure _).mono hb

theorem ends_parameters {depth : Nat} {cursor : Cursor} (h : cursor.remaining + 1 ≤ depth) :
    (parameters depth).Ends cursor cursor.remaining := by
  unfold parameters
  refine Ends.bind_expect (by decide) (Nat.le_refl _) fun _ after ha => ?_
  refine Ends.bind_peek ?_
  split
  · exact Ends.bind_take fun later hl => (ends_pure _).mono (by omega)
  · refine Ends.bind_expect (by decide) (by omega) fun _ later hl => ?_
    refine Ends.bind ((ends_parameterTail depth later (by omega)).mono (by omega)) fun _ _ _ hb => ?_
    exact (ends_pure _).mono hb

variable {depth : Nat} {cursor : Cursor}

theorem Enough.expression_succ (e : Enough depth) (level : Level)
    (h : 4 * cursor.remaining + 2 ≤ depth + 1) :
    (Grammar.expression (depth + 1) level).Ends cursor (cursor.remaining - 1) := by
  simp only [Grammar.expression]
  refine Ends.bind (e.operand cursor (by omega)) fun left after _ ha => ?_
  exact (e.climb level left after (by omega)).mono ha

/-- An operand takes a token, which leaves four calls more for what is inside it. -/
theorem Enough.operand_succ (e : Enough depth) (h : 4 * cursor.remaining + 1 ≤ depth + 1) :
    (Grammar.operand (depth + 1)).Ends cursor (cursor.remaining - 1) := by
  simp only [Grammar.operand]
  refine Ends.bind_take fun after ha => ?_
  have unary (wrap : Expr → Expr) (hk : cursor.feed.head.kind ≠ .endOfInput) :
      (Grammar.expression depth .unary >>= fun right => (return wrap right : Rule Expr)).Ends after
        (cursor.remaining - 1) := by
    have hpos := remaining_pos hk
    refine Ends.bind ((e.expression .unary after (by omega)).mono (by omega)) fun _ _ _ hb => ?_
    exact (ends_pure _).mono hb
  split
  · exact (ends_pure _).mono (by omega)
  · exact ends_numeral.mono (by omega)
  · exact (ends_pure _).mono (by omega)
  · exact (ends_pure _).mono (by omega)
  · exact (ends_pure _).mono (by omega)
  · next hk => exact unary (fun right => .unary .not right _) (by rw [hk]; decide)
  · next hk => exact unary (fun right => .unary .negate right _) (by rw [hk]; decide)
  · next hk =>
    have hpos := @remaining_pos cursor (by rw [hk]; decide)
    refine Ends.bind ((e.expression .lowest after (by omega)).mono (by omega)) fun _ next _ hb => ?_
    refine Ends.bind_expect (by decide) (by omega) fun _ last hl => ?_
    exact (ends_pure _).mono (by omega)
  · next hk =>
    have hpos := @remaining_pos cursor (by rw [hk]; decide)
    refine Ends.bind_expect (by decide) (by omega) fun _ c1 h1 => ?_
    refine Ends.bind ((e.expression .lowest c1 (by omega)).mono (by omega)) fun _ c2 _ h2 => ?_
    refine Ends.bind_expect (by decide) (by omega) fun _ c3 h3 => ?_
    refine Ends.bind ((e.block c3 (by omega)).mono (by omega)) fun _ c4 _ h4 => ?_
    refine Ends.bind ((e.alternative c4 (by omega)).mono (by omega)) fun _ c5 _ h5 => ?_
    exact (ends_pure _).mono h5
  · next hk =>
    have hpos := @remaining_pos cursor (by rw [hk]; decide)
    refine Ends.bind ((ends_parameters (by omega)).mono (by omega)) fun _ c1 _ h1 => ?_
    refine Ends.bind ((e.block c1 (by omega)).mono (by omega)) fun _ c2 _ h2 => ?_
    exact (ends_pure _).mono h2
  · next hk =>
    have hpos := @remaining_pos cursor (by rw [hk]; decide)
    refine Ends.bind ((e.list .rightBracket after (by decide) (by omega)).mono (by omega))
      fun _ c1 _ h1 => ?_
    exact (ends_pure _).mono h1
  · next hk =>
    have hpos := @remaining_pos cursor (by rw [hk]; decide)
    refine Ends.bind ((e.entries after (by omega)).mono (by omega)) fun _ c1 _ h1 => ?_
    exact (ends_pure _).mono h1
  · exact (ends_fail _).mono (by omega)
  · exact (ends_fail _).mono (by omega)
  · exact (ends_fail _).mono (by omega)

theorem Enough.climb_succ (e : Enough depth) (level : Level) (left : Expr)
    (h : 4 * cursor.remaining + 1 ≤ depth + 1) :
    (Grammar.climb (depth + 1) level left).Ends cursor cursor.remaining := by
  simp only [Grammar.climb]
  refine Ends.bind_peek ?_
  split
  · exact ends_pure _
  · next continuation hc =>
    have hpos := @remaining_pos cursor fun hk => by rw [hk] at hc; cases hc
    split
    · refine Ends.bind_take fun c1 h1 => ?_
      refine Ends.mono (?_ : Ends _ _ c1.remaining) (by omega)
      refine Ends.bind (e.continued left _ continuation c1 (by omega)) fun grown c2 _ h2 => ?_
      exact (e.climb level grown c2 (by omega)).mono h2
    · exact ends_pure _

theorem Enough.continued_succ (e : Enough depth) (left : Expr) (line : Nat)
    (continuation : Continuation) (h : 4 * cursor.remaining + 4 ≤ depth + 1) :
    (Grammar.continued (depth + 1) left line continuation).Ends cursor cursor.remaining := by
  cases continuation with
  | operator op =>
    simp only [Grammar.continued]
    refine Ends.bind ((e.expression op.level cursor (by omega)).mono (by omega)) fun _ _ _ h1 => ?_
    exact (ends_pure _).mono h1
  | call =>
    simp only [Grammar.continued]
    refine Ends.bind (e.list .rightParen cursor (by decide) (by omega)) fun _ _ _ h1 => ?_
    exact (ends_pure _).mono h1
  | index =>
    simp only [Grammar.continued]
    refine Ends.bind ((e.expression .lowest cursor (by omega)).mono (by omega)) fun _ c1 _ h1 => ?_
    refine Ends.bind_expect (by decide) h1 fun _ c2 h2 => ?_
    exact (ends_pure _).mono (by omega)

theorem Enough.list_succ (e : Enough depth) {closing : Token.Kind} (hc : closing ≠ .endOfInput)
    (h : 4 * cursor.remaining + 3 ≤ depth + 1) :
    (Grammar.list (depth + 1) closing).Ends cursor cursor.remaining := by
  simp only [Grammar.list]
  refine Ends.bind_peek ?_
  split
  · exact Ends.bind_take fun c1 h1 => (ends_pure _).mono (by omega)
  · refine Ends.bind ((e.expression .lowest cursor (by omega)).mono (by omega)) fun _ c1 _ h1 => ?_
    refine Ends.bind ((e.listTail closing c1 hc (by omega)).mono h1) fun _ c2 _ h2 => ?_
    exact (ends_pure _).mono h2

theorem Enough.listTail_succ (e : Enough depth) {closing : Token.Kind} (hc : closing ≠ .endOfInput)
    (h : 4 * cursor.remaining + 1 ≤ depth + 1) :
    (Grammar.listTail (depth + 1) closing).Ends cursor cursor.remaining := by
  simp only [Grammar.listTail]
  refine Ends.bind_peek ?_
  split
  · next hk =>
    have hpos := @remaining_pos cursor (by rw [hk]; decide)
    refine Ends.bind_take fun c1 h1 => ?_
    refine Ends.mono (?_ : Ends _ _ c1.remaining) (by omega)
    refine Ends.bind ((e.expression .lowest c1 (by omega)).mono (by omega)) fun _ c2 _ h2 => ?_
    refine Ends.bind ((e.listTail closing c2 hc (by omega)).mono h2) fun _ c3 _ h3 => ?_
    exact (ends_pure _).mono h3
  · exact Ends.bind (ends_expect _) fun _ _ _ hb => (ends_pure _).mono hb

theorem Enough.entries_succ (e : Enough depth) (h : 4 * cursor.remaining + 3 ≤ depth + 1) :
    (Grammar.entries (depth + 1)).Ends cursor cursor.remaining := by
  simp only [Grammar.entries]
  refine Ends.bind_peek ?_
  split
  · exact Ends.bind_take fun c1 h1 => (ends_pure _).mono (by omega)
  · refine Ends.bind ((e.expression .lowest cursor (by omega)).mono (by omega)) fun _ c1 _ h1 => ?_
    refine Ends.bind_expect (by decide) h1 fun _ c2 h2 => ?_
    refine Ends.mono (?_ : Ends _ _ c2.remaining) (by omega)
    refine Ends.bind ((e.expression .lowest c2 (by omega)).mono (by omega)) fun _ c3 _ h3 => ?_
    refine Ends.bind (ends_entrySeparator.mono h3) fun _ c4 _ h4 => ?_
    refine Ends.bind ((e.entries c4 (by omega)).mono h4) fun _ c5 _ h5 => ?_
    exact (ends_pure _).mono h5

theorem Enough.alternative_succ (e : Enough depth) (h : 4 * cursor.remaining + 1 ≤ depth + 1) :
    (Grammar.alternative (depth + 1)).Ends cursor cursor.remaining := by
  simp only [Grammar.alternative]
  refine Ends.bind_peek ?_
  split
  · next hk =>
    have hpos := @remaining_pos cursor (by rw [hk]; decide)
    refine Ends.bind_take fun c1 h1 => ?_
    refine Ends.bind ((e.block c1 (by omega)).mono (by omega)) fun _ c2 _ h2 => ?_
    exact (ends_pure _).mono h2
  · exact ends_pure _

theorem Enough.block_succ (e : Enough depth) (h : 4 * cursor.remaining + 1 ≤ depth + 1) :
    (Grammar.block (depth + 1)).Ends cursor cursor.remaining := by
  simp only [Grammar.block]
  refine Ends.bind_expect (by decide) (Nat.le_refl _) fun _ c1 h1 => ?_
  refine Ends.bind ((e.statements c1 (by omega)).mono (by omega)) fun _ c2 _ h2 => ?_
  exact (ends_pure _).mono h2

theorem Enough.statements_succ (e : Enough depth) (h : 4 * cursor.remaining + 4 ≤ depth + 1) :
    (Grammar.statements (depth + 1)).Ends cursor cursor.remaining := by
  simp only [Grammar.statements]
  refine Ends.bind_peek ?_
  split
  · exact Ends.bind_take fun c1 h1 => (ends_pure _).mono (by omega)
  split
  · exact Ends.bind_take fun c1 h1 => (ends_fail _).mono (by omega)
  · next hk =>
    have hpos := remaining_pos hk
    refine Ends.mono (?_ : Ends _ _ (cursor.remaining - 1)) (by omega)
    refine Ends.bind (ends_attempt (e.statement cursor (by omega))) fun _ c1 _ h1 => ?_
    refine Ends.bind ((e.statements c1 (by omega)).mono h1) fun _ c2 _ h2 => ?_
    exact (ends_pure _).mono h2

theorem Enough.statement_succ (e : Enough depth) (h : 4 * cursor.remaining + 3 ≤ depth + 1) :
    (Grammar.statement (depth + 1)).Ends cursor (cursor.remaining - 1) := by
  simp only [Grammar.statement]
  refine Ends.bind_peek ?_
  split
  · next hk =>
    have hpos := @remaining_pos cursor (by rw [hk]; decide)
    refine Ends.bind_take fun c1 h1 => ?_
    refine Ends.bind_expect (by decide) (by omega) fun _ c2 h2 => ?_
    refine Ends.bind_expect (by decide) (by omega) fun _ c3 h3 => ?_
    refine Ends.bind ((e.expression .lowest c3 (by omega)).mono (by omega)) fun _ c4 _ h4 => ?_
    exact Ends.bind (ends_skipSemicolon.mono h4) fun _ c5 _ h5 => (ends_pure _).mono h5
  · next hk =>
    have hpos := @remaining_pos cursor (by rw [hk]; decide)
    refine Ends.bind_take fun c1 h1 => ?_
    refine Ends.bind_peek ?_
    split
    · exact Ends.bind (ends_skipSemicolon.mono (by omega)) fun _ c2 _ h2 => (ends_pure _).mono h2
    · refine Ends.bind ((e.expression .lowest c1 (by omega)).mono (by omega)) fun _ c2 _ h2 => ?_
      exact Ends.bind (ends_skipSemicolon.mono h2) fun _ c3 _ h3 => (ends_pure _).mono h3
  · refine Ends.bind (e.expression .lowest cursor (by omega)) fun _ c1 _ h1 => ?_
    exact Ends.bind (ends_skipSemicolon.mono h1) fun _ c2 _ h2 => (ends_pure _).mono h2

/-- Every bound is enough for what it has to be. -/
theorem enough (depth : Nat) : Enough depth := by
  induction depth with
  | zero => constructor <;> intros <;> omega
  | succ depth e =>
    exact {
      expression := fun level _ h => e.expression_succ level h
      operand := fun _ h => e.operand_succ h
      climb := fun level left _ h => e.climb_succ level left h
      continued := fun left line continuation _ h => e.continued_succ left line continuation h
      list := fun _ _ hc h => e.list_succ hc h
      listTail := fun _ _ hc h => e.listTail_succ hc h
      entries := fun _ h => e.entries_succ h
      alternative := fun _ h => e.alternative_succ h
      block := fun _ h => e.block_succ h
      statements := fun _ h => e.statements_succ h
      statement := fun _ h => e.statement_succ h }

/-- **The rule of a program completes**: a bound of four calls for each token, and four, is enough. -/
theorem program_isDone : ∀ (depth : Nat) (cursor : Cursor), 4 * cursor.remaining + 4 ≤ depth →
    ∃ statements next, program depth cursor = .done statements next
  | 0, _, h => absurd h (by omega)
  | depth + 1, cursor, h => by
    by_cases hk : cursor.feed.head.kind = .endOfInput
    · refine ⟨[], cursor, ?_⟩
      show (if cursor.feed.head.kind = .endOfInput then (return []) else _ : Rule Program) cursor = _
      rw [if_pos hk]
      rfl
    · have hpos := remaining_pos hk
      obtain ⟨first, c1, h1, hr⟩ := attempt_isDone ((enough depth).statement cursor (by omega))
      obtain ⟨others, c2, h2⟩ := program_isDone depth c1 (by omega)
      refine ⟨first.toList ++ others, c2, ?_⟩
      show (if cursor.feed.head.kind = .endOfInput then (return []) else _ : Rule Program) cursor = _
      rw [if_neg hk]
      show Rule.bind (attempt (statement depth)) _ cursor = _
      simp only [Rule.bind, h1]
      show Rule.bind (program depth) _ c1 = _
      simp only [Rule.bind, h2]
      rfl

end Grammar

/-- Reading a feed is running the rule of a program on it to its end. -/
theorem Feed.exists_parse (feed : Feed) :
    ∃ program next, Grammar.program feed.depthBound ⟨feed, []⟩ = .done program next ∧
      feed.parse = ⟨program, next.errors.reverse⟩ := by
  obtain ⟨program, next, h⟩ :=
    Grammar.program_isDone feed.depthBound ⟨feed, []⟩ (Nat.le_refl _)
  refine ⟨program, next, h, ?_⟩
  unfold Feed.parse
  rw [h]

end TinyScript
