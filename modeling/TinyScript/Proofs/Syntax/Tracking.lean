import TinyScript.Proofs.Syntax.Course

/-! # Two readings side by side

A rule goes by the kinds of the tokens ahead, and it takes the end of the input only where it fails there. So on two
feeds whose tokens are equal up to the ends of the input the rules go the same way. A relation between the cursors
of two readings that is kept by each token taken and by each failure (`Cursor.Tracking`) is kept by every rule
(`Grammar.tracks`, `Grammar.tracks_program`), and so by the reading of a whole feed (`Feed.exists_tracked`).

A relation may let go of the second reading, which is at `none` from then on, and nothing more is said of it. The
second reading may have the larger bound on its calls. Every cursor tracks itself, so a larger bound changes nothing
(`Grammar.program_eq_or_starved`).
-/

namespace TinyScript

/-- Tokens of one kind, which are equal unless they are ends of the input. -/
structure Token.Alike (token other : Token) : Prop where
  kind : other.kind = token.kind
  eq : token.kind ≠ .endOfInput → other = token

theorem Token.Alike.refl (token : Token) : token.Alike token :=
  ⟨rfl, fun _ => rfl⟩

/-- Why a rule fails at the next token. -/
inductive Refusal where
  /-- No expression begins with it. -/
  | operand
  /-- Another kind is required. -/
  | require (kind : Token.Kind)
  /-- A block is still open. -/
  | unclosed

/-- What a failure records against the next token. -/
def Refusal.error : Refusal → Token → SyntaxError
  | .operand, token => token.refusal
  | .require kind, token => .unexpected kind token.kind token.line
  | .unclosed, token => .unexpected .rightBrace token.kind token.line

/-- Where a rule stops that fails at the next token. It leaves a token in whose place another kind is required, and
takes any other. -/
def Cursor.refuse (refusal : Refusal) (cursor : Cursor) : Cursor :=
  match refusal with
  | .require _ => cursor.record (refusal.error cursor.feed.head)
  | _ => cursor.advance.record (refusal.error cursor.feed.head)

/-- A relation between the cursors of two readings that is kept by what rules do with tokens. -/
structure Cursor.Tracking (R : Cursor → Option Cursor → Prop) : Prop where
  head : ∀ {cursor other}, R cursor (some other) → cursor.feed.head.Alike other.feed.head
  take : ∀ {cursor place}, R cursor place → cursor.feed.head.kind ≠ .endOfInput →
    R cursor.advance (place.map advance)
  refuse : ∀ {cursor place}, R cursor place → ∀ refusal,
    R (cursor.refuse refusal) (place.map (Cursor.refuse refusal)) ∨ R (cursor.refuse refusal) none

/-- A rule ends as another one does, at cursors that are related, unless it meets its bound. -/
def Outcome.Tracks {α : Type} (R : Cursor → Option Cursor → Prop) (outcome : Outcome α)
    (other : Option (Outcome α)) : Prop :=
  match outcome with
  | .done value after => ∃ place, R after place ∧ ∀ there ∈ place, other = some (.done value there)
  | .failed after => ∃ place, R after place ∧ ∀ there ∈ place, other = some (.failed there)
  | .starved => True

namespace Rule

variable {α β : Type} {R : Cursor → Option Cursor → Prop} {cursor : Cursor} {place : Option Cursor}

/-- From a cursor on, a rule does what another one does from the place of the other reading on. -/
def Tracks (R : Cursor → Option Cursor → Prop) (rule other : Rule α) (cursor : Cursor) (place : Option Cursor) :
    Prop :=
  (rule cursor).Tracks R (place.map other)

theorem tracks_pure (h : R cursor place) (value : α) : (pure value : Rule α).Tracks R (pure value) cursor place :=
  ⟨place, h, fun there hp => by rw [Option.mem_def.mp hp]; rfl⟩

theorem tracks_starve {other : Rule α} : (starve : Rule α).Tracks R other cursor place :=
  trivial

theorem map_bind_of_done {rule : Rule α} {next : α → Rule β} {value : α} {middle : Option Cursor}
    {outcome : Outcome β} (h : ∀ after ∈ middle, place.map rule = some (.done value after))
    (hn : middle.map (next value) = some outcome) : place.map (rule >>= next) = some outcome := by
  obtain ⟨after, rfl, ho⟩ := Option.map_eq_some_iff.mp hn
  obtain ⟨start, rfl, hs⟩ := Option.map_eq_some_iff.mp (h after rfl)
  show some (Rule.bind rule next start) = _
  unfold Rule.bind
  rw [hs, ← ho]

theorem map_bind_of_failed {rule : Rule α} {next : α → Rule β} {after : Cursor}
    (h : place.map rule = some (.failed after)) : place.map (rule >>= next) = some (.failed after) := by
  obtain ⟨start, rfl, hs⟩ := Option.map_eq_some_iff.mp h
  show some (Rule.bind rule next start) = _
  unfold Rule.bind
  rw [hs]

theorem Tracks.bind {rule other : Rule α} {next later : α → Rule β} (h : rule.Tracks R other cursor place)
    (hn : ∀ value {after middle}, R after middle → (next value).Tracks R (later value) after middle) :
    (rule >>= next).Tracks R (other >>= later) cursor place := by
  show (Rule.bind rule next cursor).Tracks R _
  unfold Tracks Rule.bind at *
  generalize rule cursor = outcome at h ⊢
  cases outcome with
  | done value after =>
    obtain ⟨middle, hm, hd⟩ := h
    have hl := hn value hm
    dsimp only
    generalize next value after = ending at hl ⊢
    cases ending with
    | done result last =>
      obtain ⟨ends, he, hr⟩ := hl
      exact ⟨ends, he, fun there ht => map_bind_of_done hd (hr there ht)⟩
    | failed last =>
      obtain ⟨ends, he, hr⟩ := hl
      exact ⟨ends, he, fun there ht => map_bind_of_done hd (hr there ht)⟩
    | starved => trivial
  | failed after =>
    obtain ⟨ends, he, hr⟩ := h
    exact ⟨ends, he, fun there ht => map_bind_of_failed (hr there ht)⟩
  | starved => trivial

theorem Tracks.map {rule other : Rule α} {f : α → β} (h : rule.Tracks R other cursor place) :
    (rule >>= fun value => (return f value : Rule β)).Tracks R
      (other >>= fun value => (return f value : Rule β)) cursor place :=
  h.bind fun _ _ _ ht => tracks_pure ht _

theorem Tracks.discard {rule other : Rule α} (h : rule.Tracks R other cursor place) :
    (Functor.discard rule).Tracks R (Functor.discard other) cursor place :=
  h.map

theorem Tracks.attempt {rule other : Rule α} (h : rule.Tracks R other cursor place) :
    rule.attempt.Tracks R other.attempt cursor place := by
  unfold Tracks Rule.attempt at *
  generalize rule cursor = outcome at h ⊢
  cases outcome with
  | done value after =>
    obtain ⟨next, hn, hd⟩ := h
    refine ⟨next, hn, fun there ht => ?_⟩
    obtain ⟨start, rfl, hs⟩ := Option.map_eq_some_iff.mp (hd there ht)
    rw [Option.map_some, hs]
  | failed after =>
    obtain ⟨next, hn, hd⟩ := h
    refine ⟨next, hn, fun there ht => ?_⟩
    obtain ⟨start, rfl, hs⟩ := Option.map_eq_some_iff.mp (hd there ht)
    rw [Option.map_some, hs]
  | starved => trivial

end Rule

namespace Cursor.Tracking

open Rule Grammar

variable {α β : Type} {R : Cursor → Option Cursor → Prop} {cursor : Cursor} {place : Option Cursor}

/-- The token that the other reading has next is alike. -/
theorem bind_peek (t : Tracking R) (h : R cursor place) {next later : Token → Rule β}
    (hn : ∀ token, cursor.feed.head.Alike token → (next cursor.feed.head).Tracks R (later token) cursor place) :
    (peek >>= next).Tracks R (peek >>= later) cursor place := by
  cases place with
  | none => exact hn _ (.refl _)
  | some other => exact hn _ (t.head h)

theorem tracks_take (t : Tracking R) (h : R cursor place) (hk : cursor.feed.head.kind ≠ .endOfInput) :
    Rule.take.Tracks R Rule.take cursor place := by
  refine ⟨_, t.take h hk, fun there ht => ?_⟩
  obtain ⟨other, rfl, rfl⟩ := Option.map_eq_some_iff.mp ht
  show some (Outcome.done other.feed.head _) = _
  rw [(t.head h).eq hk]
  rfl

/-- Both readings take a token that is not the end of the input, the same one. -/
theorem bind_take (t : Tracking R) (h : R cursor place) (hk : cursor.feed.head.kind ≠ .endOfInput)
    {next later : Token → Rule β}
    (hn : ∀ {middle}, R cursor.advance middle →
      (next cursor.feed.head).Tracks R (later cursor.feed.head) cursor.advance middle) :
    (Rule.take >>= next).Tracks R (Rule.take >>= later) cursor place := by
  have hm := hn (t.take h hk)
  cases place with
  | none => exact hm
  | some other =>
    show (next cursor.feed.head cursor.advance).Tracks R (some (later other.feed.head other.advance))
    rw [(t.head h).eq hk]
    exact hm

theorem tracks_refuse (t : Tracking R) (h : R cursor place) (refusal : Refusal) {rule other : Rule α}
    (hr : rule cursor = .failed (cursor.refuse refusal))
    (ho : ∀ there ∈ place, other there = .failed (there.refuse refusal)) :
    rule.Tracks R other cursor place := by
  unfold Tracks
  rw [hr]
  obtain h | h := t.refuse h refusal
  · refine ⟨_, h, fun there ht => ?_⟩
    obtain ⟨start, rfl, rfl⟩ := Option.map_eq_some_iff.mp ht
    exact congrArg some (ho start rfl)
  · exact ⟨none, h, fun _ ht => (Option.not_mem_none _ ht).elim⟩

theorem expect_of_ne {kind : Token.Kind} (hk : cursor.feed.head.kind ≠ kind) :
    expect kind cursor = .failed (cursor.refuse (.require kind)) := by
  show (if cursor.feed.head.kind = kind then Rule.take else fail _) cursor = _
  rw [if_neg hk]
  rfl

theorem tracks_expect (t : Tracking R) (h : R cursor place) {kind : Token.Kind} (hk : kind ≠ .endOfInput) :
    (expect kind).Tracks R (expect kind) cursor place := by
  unfold expect
  by_cases hc : cursor.feed.head.kind = kind
  · refine t.bind_peek h fun token ht => ?_
    rw [if_pos hc, if_pos (ht.kind.trans hc)]
    exact t.tracks_take h (hc ▸ hk)
  · refine t.tracks_refuse h (.require kind) (expect_of_ne hc) fun there ht => expect_of_ne fun hd => ?_
    obtain rfl := Option.mem_def.mp ht
    exact hc ((t.head h).kind.symm.trans hd)

theorem tracks_skipSemicolon (t : Tracking R) (h : R cursor place) :
    skipSemicolon.Tracks R skipSemicolon cursor place := by
  refine t.bind_peek h fun token ht => ?_
  rw [ht.kind]
  split
  · next hk => exact (t.tracks_take h (by rw [hk]; decide)).discard
  · exact tracks_pure h ()

theorem tracks_entrySeparator (t : Tracking R) (h : R cursor place) :
    entrySeparator.Tracks R entrySeparator cursor place := by
  refine t.bind_peek h fun token ht => ?_
  rw [ht.kind]
  split
  · exact tracks_pure h ()
  · exact (t.tracks_expect h (by decide)).discard

theorem tracks_parameterTail (t : Tracking R) :
    ∀ {depth larger : Nat}, depth ≤ larger → ∀ {cursor place}, R cursor place →
      (parameterTail depth).Tracks R (parameterTail larger) cursor place
  | 0, _, _, _, _, _ => tracks_starve
  | depth + 1, larger + 1, hd, cursor, place, h => by
    refine t.bind_peek h fun token ht => ?_
    rw [ht.kind]
    split
    · next hk =>
      refine t.bind_take h (by rw [hk]; decide) fun h => ?_
      refine (t.tracks_expect h (by decide)).bind fun _ _ _ h => ?_
      exact (t.tracks_parameterTail (Nat.le_of_succ_le_succ hd) h).map
    · exact (t.tracks_expect h (by decide)).map

theorem tracks_parameters (t : Tracking R) {depth larger : Nat} (hd : depth ≤ larger) (h : R cursor place) :
    (parameters depth).Tracks R (parameters larger) cursor place := by
  refine (t.tracks_expect h (by decide)).bind fun _ _ _ h => t.bind_peek h fun token ht => ?_
  rw [ht.kind]
  split
  · next hk => exact (t.tracks_take h (by rw [hk]; decide)).map
  · exact (t.tracks_expect h (by decide)).bind fun _ _ _ h => (t.tracks_parameterTail hd h).map

/-- Where a rule takes its first token in any case, it goes on from there or fails because of it. -/
theorem opens_take (t : Tracking R) (h : R cursor place) {next later : Token → Rule β}
    (hn : ((cursor.feed.head.kind == .endOfInput) = false ∧ ∀ {middle}, R cursor.advance middle →
        (next cursor.feed.head).Tracks R (later cursor.feed.head) cursor.advance middle) ∨
      ∀ token, cursor.feed.head.Alike token →
        next token = fail token.refusal ∧ later token = fail token.refusal) :
    (Rule.take >>= next).Tracks R (Rule.take >>= later) cursor place := by
  obtain ⟨hk, hn⟩ | hn := hn
  · exact t.bind_take h (beq_eq_false_iff_ne.mp hk) hn
  · refine t.tracks_refuse h .operand ?_ fun there ht => ?_
    · show next cursor.feed.head cursor.advance = _
      rw [(hn _ (.refl _)).1]
      rfl
    · obtain rfl := Option.mem_def.mp ht
      show later there.feed.head there.advance = _
      rw [(hn _ (t.head h)).2]
      rfl

end Cursor.Tracking

namespace Grammar

open Rule

variable {R : Cursor → Option Cursor → Prop}

/-- Every rule does within a bound what it does within a larger one along the other reading. A statement is only
read before a token that is not the end of the input. -/
structure Tracks (R : Cursor → Option Cursor → Prop) (depth larger : Nat) : Prop where
  expression : ∀ level {cursor place}, R cursor place →
    (expression depth level).Tracks R (expression larger level) cursor place
  operand : ∀ {cursor place}, R cursor place → (operand depth).Tracks R (operand larger) cursor place
  climb : ∀ level left {cursor place}, R cursor place →
    (climb depth level left).Tracks R (climb larger level left) cursor place
  continued : ∀ left line continuation {cursor place}, R cursor place →
    (continued depth left line continuation).Tracks R (continued larger left line continuation) cursor place
  list : ∀ {closing}, closing ≠ .endOfInput → ∀ {cursor place}, R cursor place →
    (list depth closing).Tracks R (list larger closing) cursor place
  listTail : ∀ {closing}, closing ≠ .endOfInput → ∀ {cursor place}, R cursor place →
    (listTail depth closing).Tracks R (listTail larger closing) cursor place
  entries : ∀ {cursor place}, R cursor place → (entries depth).Tracks R (entries larger) cursor place
  alternative : ∀ {cursor place}, R cursor place →
    (alternative depth).Tracks R (alternative larger) cursor place
  block : ∀ {cursor place}, R cursor place → (block depth).Tracks R (block larger) cursor place
  statements : ∀ {cursor place}, R cursor place → (statements depth).Tracks R (statements larger) cursor place
  statement : ∀ {cursor place}, R cursor place → cursor.feed.head.kind ≠ .endOfInput →
    (statement depth).Tracks R (statement larger) cursor place

namespace Tracks

variable {depth larger : Nat} {cursor : Cursor} {place : Option Cursor}

theorem operand_succ (s : Tracks R depth larger) (t : Cursor.Tracking R) (hd : depth ≤ larger)
    (h : R cursor place) : (Grammar.operand (depth + 1)).Tracks R (Grammar.operand (larger + 1)) cursor place := by
  simp only [Grammar.operand]
  refine t.opens_take h ?_
  generalize cursor.feed.head = token
  have hn := @Recording.numeral_cases token
  obtain ⟨kind, literal, line⟩ := token
  cases kind with
  | identifier => exact .inl ⟨rfl, fun h => tracks_pure h _⟩
  | number =>
    obtain ⟨-, e, he⟩ | he := hn rfl
    · refine .inl ⟨rfl, fun h => ?_⟩
      dsimp only
      rw [he]
      exact tracks_pure h e
    · refine .inr fun token ht => ?_
      rw [ht.eq (beq_eq_false_iff_ne.mp rfl)]
      exact ⟨he, he⟩
  | string => exact .inl ⟨rfl, fun h => tracks_pure h _⟩
  | trueWord => exact .inl ⟨rfl, fun h => tracks_pure h _⟩
  | falseWord => exact .inl ⟨rfl, fun h => tracks_pure h _⟩
  | bang => exact .inl ⟨rfl, fun h => (s.expression .unary h).map⟩
  | minus => exact .inl ⟨rfl, fun h => (s.expression .unary h).map⟩
  | leftParen =>
    exact .inl ⟨rfl, fun h => (s.expression .lowest h).bind fun _ _ _ h => (t.tracks_expect h (by decide)).map⟩
  | ifWord =>
    refine .inl ⟨rfl, fun h => (t.tracks_expect h (by decide)).bind fun _ _ _ h => ?_⟩
    refine (s.expression .lowest h).bind fun _ _ _ h => (t.tracks_expect h (by decide)).bind fun _ _ _ h => ?_
    exact (s.block h).bind fun _ _ _ h => (s.alternative h).map
  | fnWord => exact .inl ⟨rfl, fun h => (t.tracks_parameters hd h).bind fun _ _ _ h => (s.block h).map⟩
  | leftBracket => exact .inl ⟨rfl, fun h => (s.list (by decide) h).map⟩
  | leftBrace => exact .inl ⟨rfl, fun h => (s.entries h).map⟩
  | _ =>
    refine .inr fun token ht => ?_
    obtain ⟨kind, literal, line⟩ := token
    obtain rfl : kind = _ := ht.kind
    exact ⟨rfl, rfl⟩

theorem climb_succ (s : Tracks R depth larger) (t : Cursor.Tracking R) (level : Level) (left : Expr)
    (h : R cursor place) :
    (Grammar.climb (depth + 1) level left).Tracks R (Grammar.climb (larger + 1) level left) cursor place := by
  simp only [Grammar.climb]
  refine t.bind_peek h fun token ht => ?_
  rw [ht.kind]
  split
  · exact tracks_pure h _
  · next continuation hc =>
    have hk : cursor.feed.head.kind ≠ .endOfInput := fun hk => by
      rw [hk] at hc
      cases hc
    rw [ht.eq hk]
    split
    · refine t.bind_take h hk fun h => (s.continued left _ continuation h).bind fun grown _ _ h => ?_
      exact s.climb level grown h
    · exact tracks_pure h _

theorem continued_succ (s : Tracks R depth larger) (t : Cursor.Tracking R) (left : Expr) (line : Nat)
    (continuation : Continuation) (h : R cursor place) :
    (Grammar.continued (depth + 1) left line continuation).Tracks R
      (Grammar.continued (larger + 1) left line continuation) cursor place := by
  cases continuation with
  | operator op => exact (s.expression op.level h).map
  | call => exact (s.list (by decide) h).map
  | index => exact (s.expression .lowest h).bind fun _ _ _ h => (t.tracks_expect h (by decide)).map

theorem list_succ (s : Tracks R depth larger) (t : Cursor.Tracking R) {closing : Token.Kind}
    (hc : closing ≠ .endOfInput) (h : R cursor place) :
    (Grammar.list (depth + 1) closing).Tracks R (Grammar.list (larger + 1) closing) cursor place := by
  simp only [Grammar.list]
  refine t.bind_peek h fun token ht => ?_
  rw [ht.kind]
  split
  · next hk => exact (t.tracks_take h (hk ▸ hc)).map
  · exact (s.expression .lowest h).bind fun _ _ _ h => (s.listTail hc h).map

theorem listTail_succ (s : Tracks R depth larger) (t : Cursor.Tracking R) {closing : Token.Kind}
    (hc : closing ≠ .endOfInput) (h : R cursor place) :
    (Grammar.listTail (depth + 1) closing).Tracks R (Grammar.listTail (larger + 1) closing) cursor place := by
  simp only [Grammar.listTail]
  refine t.bind_peek h fun token ht => ?_
  rw [ht.kind]
  split
  · next hk =>
    refine t.bind_take h (by rw [hk]; decide) fun h => ?_
    exact (s.expression .lowest h).bind fun _ _ _ h => (s.listTail hc h).map
  · exact (t.tracks_expect h hc).map

theorem entries_succ (s : Tracks R depth larger) (t : Cursor.Tracking R) (h : R cursor place) :
    (Grammar.entries (depth + 1)).Tracks R (Grammar.entries (larger + 1)) cursor place := by
  simp only [Grammar.entries]
  refine t.bind_peek h fun token ht => ?_
  rw [ht.kind]
  split
  · next hk => exact (t.tracks_take h (by rw [hk]; decide)).map
  · refine (s.expression .lowest h).bind fun _ _ _ h => (t.tracks_expect h (by decide)).bind fun _ _ _ h => ?_
    refine (s.expression .lowest h).bind fun _ _ _ h => (t.tracks_entrySeparator h).bind fun _ _ _ h => ?_
    exact (s.entries h).map

theorem alternative_succ (s : Tracks R depth larger) (t : Cursor.Tracking R) (h : R cursor place) :
    (Grammar.alternative (depth + 1)).Tracks R (Grammar.alternative (larger + 1)) cursor place := by
  simp only [Grammar.alternative]
  refine t.bind_peek h fun token ht => ?_
  rw [ht.kind]
  split
  · next hk => exact t.bind_take h (by rw [hk]; decide) fun h => (s.block h).map
  · exact tracks_pure h none

theorem block_succ (s : Tracks R depth larger) (t : Cursor.Tracking R) (h : R cursor place) :
    (Grammar.block (depth + 1)).Tracks R (Grammar.block (larger + 1)) cursor place := by
  simp only [Grammar.block]
  exact (t.tracks_expect h (by decide)).bind fun _ _ _ h => (s.statements h).map

theorem statements_of_endOfInput (hk : cursor.feed.head.kind = .endOfInput) :
    Grammar.statements (depth + 1) cursor = .failed (cursor.refuse .unclosed) := by
  simp only [Grammar.statements]
  show (if cursor.feed.head.kind = .rightBrace then _ else if cursor.feed.head.kind = .endOfInput then _
    else _ : Rule (List Statement)) cursor = _
  rw [if_neg (by rw [hk]; decide), if_pos hk]
  show Outcome.failed _ = .failed (cursor.advance.record (.unexpected .rightBrace cursor.feed.head.kind _))
  rw [hk]
  rfl

theorem statements_succ (s : Tracks R depth larger) (t : Cursor.Tracking R) (h : R cursor place) :
    (Grammar.statements (depth + 1)).Tracks R (Grammar.statements (larger + 1)) cursor place := by
  by_cases hk : cursor.feed.head.kind = .endOfInput
  · refine t.tracks_refuse h .unclosed (statements_of_endOfInput hk) fun there ht => statements_of_endOfInput ?_
    obtain rfl := Option.mem_def.mp ht
    exact (t.head h).kind.trans hk
  simp only [Grammar.statements]
  refine t.bind_peek h fun token ht => ?_
  rw [ht.kind, if_neg hk, if_neg hk]
  split
  · next hk => exact (t.tracks_take h (by rw [hk]; decide)).map
  · exact (s.statement h hk).attempt.bind fun _ _ _ h => (s.statements h).map

theorem statement_succ (s : Tracks R depth larger) (t : Cursor.Tracking R) (h : R cursor place)
    (hk : cursor.feed.head.kind ≠ .endOfInput) :
    (Grammar.statement (depth + 1)).Tracks R (Grammar.statement (larger + 1)) cursor place := by
  simp only [Grammar.statement]
  refine t.bind_peek h fun token ht => ?_
  rw [ht.eq hk]
  split
  · refine t.bind_take h hk fun h => (t.tracks_expect h (by decide)).bind fun _ _ _ h => ?_
    refine (t.tracks_expect h (by decide)).bind fun _ _ _ h => (s.expression .lowest h).bind fun _ _ _ h => ?_
    exact (t.tracks_skipSemicolon h).map
  · refine t.bind_take h hk fun h => t.bind_peek h fun token ht => ?_
    rw [ht.kind]
    split
    · exact (t.tracks_skipSemicolon h).map
    · exact (s.expression .lowest h).bind fun _ _ _ h => (t.tracks_skipSemicolon h).map
  · exact (s.expression .lowest h).bind fun _ _ _ h => (t.tracks_skipSemicolon h).map

end Tracks

/-- **What rules do with tokens is all they do**: a relation that tokens taken and failures keep is kept by every
rule. -/
theorem tracks (t : Cursor.Tracking R) : ∀ {depth larger : Nat}, depth ≤ larger → Tracks R depth larger
  | 0, _, _ => by constructor <;> intros <;> exact tracks_starve
  | depth + 1, larger + 1, hd => by
    have hd := Nat.le_of_succ_le_succ hd
    have s := tracks t hd
    exact {
      expression := fun level _ _ h => (s.operand h).bind fun left _ _ h => s.climb level left h
      operand := s.operand_succ t hd
      climb := fun level left _ _ => s.climb_succ t level left
      continued := fun left line continuation _ _ => s.continued_succ t left line continuation
      list := fun hc _ _ => s.list_succ t hc
      listTail := fun hc _ _ => s.listTail_succ t hc
      entries := s.entries_succ t
      alternative := s.alternative_succ t
      block := s.block_succ t
      statements := s.statements_succ t
      statement := s.statement_succ t }

theorem tracks_program (t : Cursor.Tracking R) : ∀ {depth larger : Nat}, depth ≤ larger →
    ∀ {cursor place}, R cursor place → (program depth).Tracks R (program larger) cursor place
  | 0, _, _, _, _, _ => tracks_starve
  | depth + 1, larger + 1, hd, cursor, place, h => by
    have hd := Nat.le_of_succ_le_succ hd
    refine t.bind_peek h fun token ht => ?_
    rw [ht.kind]
    split
    · exact tracks_pure h []
    · next hk => exact ((tracks t hd).statement h hk).attempt.bind fun _ _ _ h => (tracks_program t hd h).map

/-- A cursor is tracked by itself. -/
theorem tracking_self : Cursor.Tracking fun cursor place => place = some cursor where
  head h := by
    cases h
    exact .refl _
  take h _ := by rw [h]; rfl
  refuse h _ := .inl (by rw [h]; rfl)

/-- **A larger bound changes nothing**, unless the smaller one is met. -/
theorem program_eq_or_starved {depth larger : Nat} (hd : depth ≤ larger) (cursor : Cursor) :
    program depth cursor = program larger cursor ∨ program depth cursor = .starved := by
  have ht : (program depth).Tracks _ (program larger) cursor (some cursor) :=
    tracks_program tracking_self hd rfl
  unfold Rule.Tracks at ht
  cases hp : program depth cursor with
  | done p next =>
    rw [hp] at ht
    obtain ⟨_, rfl, hn⟩ := ht
    exact .inl (Option.some.inj (hn next rfl)).symm
  | failed next =>
    rw [hp] at ht
    obtain ⟨_, rfl, hn⟩ := ht
    exact .inl (Option.some.inj (hn next rfl)).symm
  | starved => exact .inr rfl

theorem program_of_le {depth larger : Nat} {cursor next : Cursor} {p : Program}
    (h : program depth cursor = .done p next) (hd : depth ≤ larger) : program larger cursor = .done p next := by
  obtain hp | hp := program_eq_or_starved hd cursor
  · exact hp ▸ h
  · cases hp.symm.trans h

end Grammar

/-- **Feeds whose beginnings are related are read as the same program**, as long as the second one is followed. -/
theorem Feed.exists_tracked {R : Cursor → Option Cursor → Prop} (t : Cursor.Tracking R) (feed other : Feed)
    (h : R ⟨feed, []⟩ (some ⟨other, []⟩)) :
    ∃ next place, R next place ∧ feed.parse.errors = next.errors.reverse ∧
      ∀ last ∈ place, other.parse = ⟨feed.parse.program, last.errors.reverse⟩ := by
  obtain ⟨program, next, hg, hp⟩ := feed.exists_parse
  obtain ⟨program', next', hg', hp'⟩ := other.exists_parse
  have ht := Grammar.tracks_program t (Nat.le_max_left feed.depthBound other.depthBound) h
  have ho := Grammar.program_of_le hg' (Nat.le_max_right feed.depthBound other.depthBound)
  unfold Rule.Tracks at ht
  rw [hg] at ht
  obtain ⟨place, hr, hl⟩ := ht
  rw [hp]
  refine ⟨next, place, hr, rfl, fun last hm => ?_⟩
  cases ho.symm.trans (Option.some.inj (hl last hm))
  exact hp'

end TinyScript
