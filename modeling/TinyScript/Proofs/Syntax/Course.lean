import TinyScript.Proofs.Syntax.Recording
import TinyScript.Syntax.Bound

/-! # What a rule can do

Whatever a rule reads, it goes from token to token in a few ways. It takes a token and goes on; or it fails. It
fails at a token that it takes, because no expression begins there (`refuse`); before a token that it leaves,
because another kind is required (`require`); or at the end of the input, which it takes, because a block is open
(`unclosed`). Between its tokens it makes attempts at statements, each before a token that is not the end of the
input, and an attempt takes that token or is refused for it. An attempt that fails is no failure of the rule.

`Course` says so of a rule on record: from which cursor, by which attempts, whether it was kept up or given up,
and to which cursor. **Every rule follows a course** (`Recorded.follows`, `Recorded.follows_program`), so what
holds along all courses holds of the grammar.

Three kinds of token are wrong wherever they stand: illegal characters, strings that are not closed, and numbers
that are not finite (`Token.mistake?`). A rule never takes one and goes on.
-/

namespace TinyScript

namespace Token

/-- What is wrong with a token by itself, wherever it stands. -/
def mistake? (token : Token) : Option SyntaxError :=
  match token.kind with
  | .illegal => some (.illegalToken token.literal token.line)
  | .openString => some (.unterminatedString token.line)
  | .number =>
    if (Single.read? token.literal).any Single.isFinite then none
    else some (.invalidNumber token.literal token.line)
  | _ => none

/-- Why no expression begins with a token. -/
def refusal (token : Token) : SyntaxError :=
  token.mistake?.getD (.noOperand token.kind token.line)

/-- Whether tokens of a kind can be wrong by themselves. -/
def Kind.isSuspect (kind : Kind) : Bool :=
  kind == .illegal || kind == .openString || kind == .number

/-- Only tokens of suspect kinds can be mistakes. -/
theorem mistake?_eq_none {token : Token} {kind : Kind} (hk : token.kind = kind) (h : kind.isSuspect = false) :
    token.mistake? = none := by
  unfold mistake?
  rw [hk]
  cases kind with
  | illegal => cases h
  | openString => cases h
  | number => cases h
  | _ => rfl

end Token

namespace Cursor

/-- Past the next token. -/
def advance (cursor : Cursor) : Cursor := ⟨cursor.feed.rest, cursor.errors⟩

/-- With one more error. -/
def record (cursor : Cursor) (error : SyntaxError) : Cursor := ⟨cursor.feed, error :: cursor.errors⟩

/-- From a cursor on, an attempt at a statement ends with a result and leaves a cursor. -/
def Attempts (cursor : Cursor) (result : Option Statement) (after : Cursor) : Prop :=
  ∃ depth, (Grammar.statement depth).attempt cursor = .done result after

end Cursor

/-- What a rule can do between two cursors: the attempts it makes, and whether it is kept up to the end. -/
inductive Course : Cursor → List Attempt → Bool → Cursor → Prop where
  /-- No more than that. -/
  | nothing {cursor : Cursor} : Course cursor [] true cursor
  /-- A token that is not wrong by itself is taken. -/
  | take {cursor last : Cursor} {attempts : List Attempt} {kept : Bool}
      (ht : cursor.feed.head.mistake? = none) (rest : Course cursor.advance attempts kept last) :
      Course cursor attempts kept last
  /-- A token is taken, and no expression begins there. -/
  | refuse {cursor : Cursor} : Course cursor [] false (cursor.advance.record cursor.feed.head.refusal)
  /-- The next token is not of the kind required. -/
  | require {cursor : Cursor} {kind : Token.Kind} (hk : cursor.feed.head.kind ≠ kind) :
      Course cursor [] false
        (cursor.record (.unexpected kind cursor.feed.head.kind cursor.feed.head.line))
  /-- The end of the input is taken instead of the brace that closes a block. -/
  | unclosed {cursor : Cursor} (hk : cursor.feed.head.kind = .endOfInput) :
      Course cursor [] false
        (cursor.advance.record (.unexpected .rightBrace .endOfInput cursor.feed.head.line))
  /-- A statement is attempted, which takes the next token before anything else is attempted within it. -/
  | attempt {cursor middle last : Cursor} {result : Option Statement} {nested attempts : List Attempt}
      {kept : Bool} (ran : cursor.Attempts result middle) (hk : cursor.feed.head.kind ≠ .endOfInput)
      (inner : Course cursor nested result.isSome middle)
      (hn : ∀ a ∈ Attempt.allOf nested, a.start.feed.tokens <:+ cursor.feed.rest.tokens)
      (hm : middle.feed.tokens <:+ cursor.feed.rest.tokens) (rest : Course middle attempts kept last) :
      Course cursor (⟨cursor, middle, result, nested⟩ :: attempts) kept last

/-- A course that takes its first token, or is refused for it. -/
inductive Course.Opening : Cursor → List Attempt → Bool → Cursor → Prop where
  | take {cursor last : Cursor} {attempts : List Attempt} {kept : Bool}
      (ht : cursor.feed.head.mistake? = none) (rest : Course cursor.advance attempts kept last) :
      Opening cursor attempts kept last
  | refuse {cursor : Cursor} : Opening cursor [] false (cursor.advance.record cursor.feed.head.refusal)

namespace Course

variable {cursor middle last : Cursor} {attempts later : List Attempt} {kept : Bool}

theorem Opening.course (h : Opening cursor attempts kept last) : Course cursor attempts kept last := by
  cases h with
  | take ht rest => exact .take ht rest
  | refuse => exact .refuse

/-- A course that is kept up can be followed by another. -/
theorem append {up : Bool} (h : Course cursor attempts up middle) (hu : up = true)
    (hl : Course middle later kept last) : Course cursor (attempts ++ later) kept last := by
  induction h with
  | nothing => exact hl
  | take ht _ ih => exact .take ht (ih hu hl)
  | refuse => cases hu
  | require => cases hu
  | unclosed => cases hu
  | attempt ran hk inner hn hm _ _ ih => exact .attempt ran hk inner hn hm (ih hu hl)

/-- A course that takes its first token may be followed by any course. -/
theorem Opening.append {up : Bool} (h : Opening cursor attempts up middle) (hu : up = true)
    (hl : Course middle later kept last) : Opening cursor (attempts ++ later) kept last := by
  cases h with
  | take ht rest => exact .take ht (rest.append hu hl)
  | refuse => cases hu

/-- A course leaves the tokens at the end of those there were. -/
theorem suffix (h : Course cursor attempts kept last) : last.feed.tokens <:+ cursor.feed.tokens := by
  induction h with
  | nothing | require => exact List.suffix_rfl
  | refuse | unclosed => exact List.tail_suffix _
  | take _ _ ih => exact ih.trans (List.tail_suffix _)
  | attempt _ _ _ _ _ _ inner rest => exact rest.trans inner

/-- Attempts start within the tokens of their course. -/
theorem suffix_of_mem (h : Course cursor attempts kept last) :
    ∀ a ∈ Attempt.allOf attempts, a.start.feed.tokens <:+ cursor.feed.tokens := by
  induction h with
  | nothing | refuse | require | unclosed => exact List.forall_mem_nil _
  | take _ _ ih => exact fun a ha => (ih a ha).trans (List.tail_suffix _)
  | attempt _ _ hi _ _ _ inner rest =>
    exact Attempt.forall_mem_allOf_cons List.suffix_rfl inner fun a ha => (rest a ha).trans hi.suffix

/-- The first token is taken before any attempt is made. -/
theorem Opening.suffix_rest (h : Opening cursor attempts kept last) :
    (∀ a ∈ Attempt.allOf attempts, a.start.feed.tokens <:+ cursor.feed.rest.tokens) ∧
      last.feed.tokens <:+ cursor.feed.rest.tokens := by
  cases h with
  | take _ rest => exact ⟨rest.suffix_of_mem, rest.suffix⟩
  | refuse => exact ⟨List.forall_mem_nil _, List.suffix_rfl⟩

end Course

namespace Recording

variable {α β : Type} {cursor : Cursor}

/-- What a rule does from a cursor on is as promised, unless it meets its bound. -/
def Ensures (rule : Recording α) (cursor : Cursor) (promise : List Attempt → Bool → Cursor → Prop) : Prop :=
  match rule cursor with
  | (.done _ last, attempts) => promise attempts true last
  | (.failed last, attempts) => promise attempts false last
  | (.starved, _) => True

/-- From a cursor on, a rule follows a course. -/
def Follows (rule : Recording α) (cursor : Cursor) : Prop :=
  rule.Ensures cursor (Course cursor)

/-- From a cursor on, a rule follows a course that takes the next token, or is refused for it. -/
def Opens (rule : Recording α) (cursor : Cursor) : Prop :=
  rule.Ensures cursor (Course.Opening cursor)

/-- A promise may be weakened. -/
theorem Ensures.mono {rule : Recording α} {promise weaker : List Attempt → Bool → Cursor → Prop}
    (h : rule.Ensures cursor promise)
    (hw : ∀ attempts kept last, promise attempts kept last → weaker attempts kept last) :
    rule.Ensures cursor weaker := by
  unfold Ensures at h ⊢
  split at h
  · exact hw _ _ _ h
  · exact hw _ _ _ h
  · exact h

theorem Opens.follows {rule : Recording α} (h : rule.Opens cursor) : rule.Follows cursor :=
  Ensures.mono h fun _ _ _ => Course.Opening.course

theorem follows_pure (value : α) : (pure value : Recording α).Follows cursor :=
  .nothing

/-- A promise that any course may continue is kept by a rule together with what comes after it. -/
theorem Ensures.bind {rule : Recording α} {next : α → Recording β}
    {promise : List Attempt → Bool → Cursor → Prop}
    (ha : ∀ {attempts middle later kept last}, promise attempts true middle →
      Course middle later kept last → promise (attempts ++ later) kept last)
    (h : rule.Ensures cursor promise) (hn : ∀ value after, (next value).Follows after) :
    (rule >>= next).Ensures cursor promise := by
  show Ensures (Recording.bind rule next) cursor promise
  unfold Ensures Recording.bind at *
  generalize rule cursor = ended at h ⊢
  obtain ⟨outcome, attempts⟩ := ended
  cases outcome with
  | done value after =>
    have hc := hn value after
    unfold Follows Ensures at hc
    dsimp only at h ⊢
    generalize next value after = ended at hc ⊢
    obtain ⟨ending, later⟩ := ended
    cases ending with
    | done result last => exact ha h hc
    | failed last => exact ha h hc
    | starved => trivial
  | failed after => exact h
  | starved => trivial

/-- Courses in sequence make a course. -/
theorem Follows.bind {rule : Recording α} {next : α → Recording β} (h : rule.Follows cursor)
    (hn : ∀ value after, (next value).Follows after) : (rule >>= next).Follows cursor :=
  Ensures.bind (fun hc hl => hc.append rfl hl) h hn

/-- Of a sequence the first part takes the first token. -/
theorem Opens.bind {rule : Recording α} {next : α → Recording β} (h : rule.Opens cursor)
    (hn : ∀ value after, (next value).Follows after) : (rule >>= next).Opens cursor :=
  Ensures.bind (fun hc hl => hc.append rfl hl) h hn

theorem Follows.map {rule : Recording α} {f : α → β} (h : rule.Follows cursor) :
    (rule >>= fun value => (return f value : Recording β)).Follows cursor :=
  h.bind fun _ _ => follows_pure _

/-- The next token may be looked at. -/
theorem Ensures.bind_peek {next : Token → Recording β} {promise : List Attempt → Bool → Cursor → Prop}
    (h : (next cursor.feed.head).Ensures cursor promise) :
    ((liftM Rule.peek : Recording Token) >>= next).Ensures cursor promise :=
  h

theorem Ensures.bind_take {next : Token → Recording β} {promise : List Attempt → Bool → Cursor → Prop}
    (h : (next cursor.feed.head).Ensures cursor.advance promise) :
    ((liftM Rule.take : Recording Token) >>= next).Ensures cursor promise := by
  have taken : (liftM Rule.take : Recording Token) cursor = (.done cursor.feed.head cursor.advance, []) := rfl
  unfold Ensures
  rw [bind_of_eq_done taken]
  exact h

/-- A token that is not wrong by itself may be taken. -/
theorem Opens.bind_take {next : Token → Recording β} (ht : cursor.feed.head.mistake? = none)
    (h : (next cursor.feed.head).Follows cursor.advance) :
    ((liftM Rule.take : Recording Token) >>= next).Opens cursor :=
  Ensures.bind_take (h.mono fun _ _ _ => .take ht)

/-- A rule that takes its first token in any case goes on from there, or fails because of it. -/
theorem opens_take {next : Token → Recording β}
    (h : cursor.feed.head.mistake? = none ∧ (next cursor.feed.head).Follows cursor.advance ∨
      next cursor.feed.head = liftM (Rule.fail cursor.feed.head.refusal : Rule β)) :
    ((liftM Rule.take : Recording Token) >>= next).Opens cursor := by
  obtain ⟨ht, h⟩ | h := h
  · exact Opens.bind_take ht h
  · refine Ensures.bind_take ?_
    rw [h]
    exact .refuse

theorem Follows.bind_take {next : Token → Recording β} (ht : cursor.feed.head.mistake? = none)
    (h : (next cursor.feed.head).Follows cursor.advance) :
    ((liftM Rule.take : Recording Token) >>= next).Follows cursor :=
  (Opens.bind_take ht h).follows

/-- A rule that makes no attempts may be lifted as a whole or part by part. -/
theorem lift_bind (rule : Rule α) (next : α → Rule β) :
    (liftM (rule >>= next) : Recording β) = liftM rule >>= fun value => liftM (next value) := by
  funext cursor
  show (Rule.bind rule next cursor, []) = Recording.bind (fun cursor => (rule cursor, [])) _ cursor
  unfold Rule.bind Recording.bind
  dsimp only
  cases rule cursor <;> rfl

/-! ## Rules that make no attempts -/

open Rule Grammar

theorem follows_take (ht : cursor.feed.head.mistake? = none) :
    (liftM Rule.take : Recording Token).Follows cursor :=
  .take ht .nothing

theorem follows_expect {kind : Token.Kind} (h : kind.isSuspect = false) :
    (liftM (expect kind) : Recording Token).Follows cursor := by
  unfold expect
  rw [lift_bind]
  refine Ensures.bind_peek ?_
  split
  · next hk => exact follows_take (Token.mistake?_eq_none hk h)
  · next hk => exact .require hk

theorem follows_discard {rule : Rule α} (h : (liftM rule : Recording α).Follows cursor) :
    (liftM (Functor.discard rule) : Recording Unit).Follows cursor := by
  show (liftM (rule >>= fun _ => (return () : Rule Unit)) : Recording Unit).Follows cursor
  rw [lift_bind]
  exact h.map

theorem follows_skipSemicolon : (liftM skipSemicolon : Recording Unit).Follows cursor := by
  unfold skipSemicolon
  rw [lift_bind]
  refine Ensures.bind_peek ?_
  split
  · next hk => exact follows_discard (follows_take (Token.mistake?_eq_none hk rfl))
  · exact .nothing

theorem follows_entrySeparator : (liftM entrySeparator : Recording Unit).Follows cursor := by
  unfold entrySeparator
  rw [lift_bind]
  refine Ensures.bind_peek ?_
  split
  · exact .nothing
  · exact follows_discard (follows_expect rfl)

theorem follows_parameterTail : ∀ (depth : Nat) (cursor : Cursor),
    (liftM (parameterTail depth) : Recording (List Ident)).Follows cursor
  | 0, _ => trivial
  | depth + 1, cursor => by
    unfold parameterTail
    rw [lift_bind]
    refine Ensures.bind_peek ?_
    split
    · next hk =>
      simp only [lift_bind]
      refine Follows.bind_take (Token.mistake?_eq_none hk rfl) ?_
      exact (follows_expect rfl).bind fun _ after => (follows_parameterTail depth _).map
    · rw [lift_bind]
      exact (follows_expect rfl).map

theorem follows_parameters (depth : Nat) :
    (liftM (parameters depth) : Recording (List Ident)).Follows cursor := by
  unfold parameters
  rw [lift_bind]
  refine (follows_expect rfl).bind fun _ after => ?_
  rw [lift_bind]
  refine Ensures.bind_peek ?_
  split
  · next hk =>
    rw [lift_bind]
    exact (follows_take (Token.mistake?_eq_none hk rfl)).map
  · simp only [lift_bind]
    exact (follows_expect rfl).bind fun _ _ => (follows_parameterTail depth _).map

/-- The text of a number is read, or the number is refused. -/
theorem numeral_cases {token : Token} (hk : token.kind = .number) :
    (token.mistake? = none ∧ ∃ e, numeral token = pure e) ∨ numeral token = fail token.refusal := by
  unfold numeral Token.refusal Token.mistake?
  rw [hk]
  dsimp only
  cases Single.read? token.literal with
  | none => exact .inr rfl
  | some value =>
    dsimp only [Option.any_some]
    split
    · exact .inl ⟨rfl, _, rfl⟩
    · exact .inr rfl

end Recording

namespace Recorded

open Recording

/-- Every rule follows a course, within a bound. Expressions and statements take their first token, or are
refused for it. -/
structure Follows (depth : Nat) : Prop where
  expression : ∀ level cursor, (expression depth level).Opens cursor
  operand : ∀ cursor, (operand depth).Opens cursor
  climb : ∀ level left cursor, (climb depth level left).Follows cursor
  continued : ∀ left line continuation cursor, (continued depth left line continuation).Follows cursor
  list : ∀ {closing : Token.Kind}, closing.isSuspect = false → ∀ cursor, (list depth closing).Follows cursor
  listTail : ∀ {closing : Token.Kind}, closing.isSuspect = false → ∀ cursor,
    (listTail depth closing).Follows cursor
  entries : ∀ cursor, (entries depth).Follows cursor
  alternative : ∀ cursor, (alternative depth).Follows cursor
  block : ∀ cursor, (block depth).Follows cursor
  statements : ∀ cursor, (statements depth).Follows cursor
  statement : ∀ cursor, (statement depth).Opens cursor

namespace Follows

variable {depth : Nat} {cursor : Cursor}

/-- An operand takes its first token, and is refused if no expression begins with it. -/
theorem operand_succ (f : Follows depth) : (Recorded.operand (depth + 1)).Opens cursor := by
  simp only [Recorded.operand]
  refine opens_take ?_
  generalize cursor.feed.head = token
  have hn := @numeral_cases token
  obtain ⟨kind, literal, line⟩ := token
  cases kind with
  | identifier => exact .inl ⟨rfl, follows_pure _⟩
  | number =>
    obtain ⟨hm, e, he⟩ | he := hn rfl
    · refine .inl ⟨hm, ?_⟩
      dsimp only
      rw [he]
      exact .nothing
    · refine .inr ?_
      dsimp only
      rw [he]
  | string => exact .inl ⟨rfl, follows_pure _⟩
  | trueWord => exact .inl ⟨rfl, follows_pure _⟩
  | falseWord => exact .inl ⟨rfl, follows_pure _⟩
  | bang => exact .inl ⟨rfl, (f.expression .unary _).follows.map⟩
  | minus => exact .inl ⟨rfl, (f.expression .unary _).follows.map⟩
  | leftParen =>
    exact .inl ⟨rfl, (f.expression .lowest _).follows.bind fun _ _ => (follows_expect rfl).map⟩
  | ifWord =>
    refine .inl ⟨rfl, (follows_expect rfl).bind fun _ _ => (f.expression .lowest _).follows.bind fun _ _ => ?_⟩
    refine (follows_expect rfl).bind fun _ _ => (f.block _).bind fun _ _ => ?_
    exact (f.alternative _).map
  | fnWord => exact .inl ⟨rfl, (follows_parameters depth).bind fun _ _ => (f.block _).map⟩
  | leftBracket => exact .inl ⟨rfl, (f.list rfl _).map⟩
  | leftBrace => exact .inl ⟨rfl, (f.entries _).map⟩
  | _ => exact .inr rfl

/-- What continues an expression is not wrong by itself. -/
theorem isSuspect_of_ofKind? {kind : Token.Kind} {continuation : Continuation}
    (h : Continuation.ofKind? kind = some continuation) : kind.isSuspect = false := by
  cases kind with
  | illegal => cases h
  | openString => cases h
  | number => cases h
  | _ => rfl

theorem climb_succ (f : Follows depth) (level : Level) (left : Expr) :
    (Recorded.climb (depth + 1) level left).Follows cursor := by
  simp only [Recorded.climb]
  refine Ensures.bind_peek ?_
  split
  · exact .nothing
  · next continuation hc =>
    split
    · refine Follows.bind_take (Token.mistake?_eq_none rfl (isSuspect_of_ofKind? hc)) ?_
      exact (f.continued left _ continuation _).bind fun grown _ => f.climb level grown _
    · exact .nothing

theorem continued_succ (f : Follows depth) (left : Expr) (line : Nat) (continuation : Continuation) :
    (Recorded.continued (depth + 1) left line continuation).Follows cursor := by
  cases continuation with
  | operator op => exact (f.expression op.level _).follows.map
  | call => exact (f.list rfl _).map
  | index => exact (f.expression .lowest _).follows.bind fun _ _ => (follows_expect rfl).map

theorem list_succ (f : Follows depth) {closing : Token.Kind} (hc : closing.isSuspect = false) :
    (Recorded.list (depth + 1) closing).Follows cursor := by
  simp only [Recorded.list]
  refine Ensures.bind_peek ?_
  split
  · next hk => exact (follows_take (Token.mistake?_eq_none hk hc)).map
  · exact (f.expression .lowest _).follows.bind fun _ _ => (f.listTail hc _).map

theorem listTail_succ (f : Follows depth) {closing : Token.Kind} (hc : closing.isSuspect = false) :
    (Recorded.listTail (depth + 1) closing).Follows cursor := by
  simp only [Recorded.listTail]
  refine Ensures.bind_peek ?_
  split
  · next hk =>
    refine Follows.bind_take (Token.mistake?_eq_none hk rfl) ?_
    exact (f.expression .lowest _).follows.bind fun _ _ => (f.listTail hc _).map
  · exact (follows_expect hc).map

theorem entries_succ (f : Follows depth) : (Recorded.entries (depth + 1)).Follows cursor := by
  simp only [Recorded.entries]
  refine Ensures.bind_peek ?_
  split
  · next hk => exact (follows_take (Token.mistake?_eq_none hk rfl)).map
  · refine (f.expression .lowest _).follows.bind fun _ _ => (follows_expect rfl).bind fun _ _ => ?_
    refine (f.expression .lowest _).follows.bind fun _ _ => follows_entrySeparator.bind fun _ _ => ?_
    exact (f.entries _).map

theorem alternative_succ (f : Follows depth) : (Recorded.alternative (depth + 1)).Follows cursor := by
  simp only [Recorded.alternative]
  refine Ensures.bind_peek ?_
  split
  · next hk => exact Follows.bind_take (Token.mistake?_eq_none hk rfl) (f.block _).map
  · exact .nothing

theorem block_succ (f : Follows depth) : (Recorded.block (depth + 1)).Follows cursor := by
  simp only [Recorded.block]
  exact (follows_expect rfl).bind fun _ _ => (f.statements _).map

/-- Before a token that is not the end of the input an attempt at a statement may be made. -/
theorem attempt (f : Follows depth) (hk : cursor.feed.head.kind ≠ .endOfInput) :
    (Recorded.statement depth).attempt.Follows cursor := by
  have ran : ((Recorded.statement depth).attempt cursor).1 = (Grammar.statement depth).attempt cursor :=
    (erases depth).statement.attempt cursor
  have hs := f.statement cursor
  unfold Opens Ensures at hs
  unfold Recording.Follows Ensures
  unfold Recording.attempt at ran ⊢
  generalize Recorded.statement depth cursor = ended at hs ran ⊢
  obtain ⟨outcome, nested⟩ := ended
  cases outcome with
  | done value after =>
    obtain ⟨hn, hm⟩ := hs.suffix_rest
    exact .attempt ⟨depth, ran.symm⟩ hk hs.course hn hm .nothing
  | failed after =>
    obtain ⟨hn, hm⟩ := hs.suffix_rest
    exact .attempt ⟨depth, ran.symm⟩ hk hs.course hn hm .nothing
  | starved => trivial

theorem statements_succ (f : Follows depth) : (Recorded.statements (depth + 1)).Follows cursor := by
  simp only [Recorded.statements]
  refine Ensures.bind_peek ?_
  split
  · next hk => exact (follows_take (Token.mistake?_eq_none hk rfl)).map
  split
  · next hk => exact .unclosed hk
  · next hk => exact (f.attempt hk).bind fun _ _ => (f.statements _).map

/-- A statement takes its first token, be it a word of its own or the beginning of an expression. -/
theorem statement_succ (f : Follows depth) : (Recorded.statement (depth + 1)).Opens cursor := by
  simp only [Recorded.statement]
  refine Ensures.bind_peek ?_
  split
  · next hk =>
    refine Opens.bind_take (Token.mistake?_eq_none hk rfl) ?_
    refine (follows_expect rfl).bind fun _ _ => (follows_expect rfl).bind fun _ _ => ?_
    exact (f.expression .lowest _).follows.bind fun _ _ => follows_skipSemicolon.map
  · next hk =>
    refine Opens.bind_take (Token.mistake?_eq_none hk rfl) ?_
    refine Ensures.bind_peek ?_
    split
    · exact follows_skipSemicolon.map
    · exact (f.expression .lowest _).follows.bind fun _ _ => follows_skipSemicolon.map
  · exact (f.expression .lowest _).bind fun _ _ => follows_skipSemicolon.map

end Follows

/-- **Every rule follows a course**, within any bound. -/
theorem follows (depth : Nat) : Follows depth := by
  induction depth with
  | zero => constructor <;> intros <;> trivial
  | succ depth f =>
    exact {
      expression := fun level cursor => (f.operand cursor).bind fun left after => f.climb level left after
      operand := fun _ => f.operand_succ
      climb := fun level left _ => f.climb_succ level left
      continued := fun left line continuation _ => f.continued_succ left line continuation
      list := fun hc _ => f.list_succ hc
      listTail := fun hc _ => f.listTail_succ hc
      entries := fun _ => f.entries_succ
      alternative := fun _ => f.alternative_succ
      block := fun _ => f.block_succ
      statements := fun _ => f.statements_succ
      statement := fun _ => f.statement_succ }

/-- What a program is read as are the results of the attempts, and reading it stops before the end of the input. -/
theorem program_eq_done : ∀ {depth : Nat} {cursor next : Cursor} {program : Program} {attempts : List Attempt},
    Recorded.program depth cursor = (.done program next, attempts) →
      program = attempts.filterMap Attempt.result ∧ next.feed.head.kind = .endOfInput
  | 0, _, _, _, _, h => by cases h
  | depth + 1, cursor, next, program, attempts, h => by
    obtain ⟨_, _, _, _, hp, hd, rfl⟩ := bind_eq_done h
    cases hp
    split at hd
    · next hk =>
      cases hd
      exact ⟨rfl, hk⟩
    · obtain ⟨first, middle, _, _, ha, hl, rfl⟩ := bind_eq_done hd
      obtain ⟨nested, rfl⟩ := attempt_eq_done ha
      obtain ⟨others, _, _, _, hr, hv, rfl⟩ := bind_eq_done hl
      cases hv
      obtain ⟨rfl, hk⟩ := program_eq_done hr
      refine ⟨?_, hk⟩
      cases first <;> simp

/-- **The rule of a program follows a course.** -/
theorem follows_program : ∀ (depth : Nat) (cursor : Cursor), (program depth).Follows cursor
  | 0, _ => trivial
  | depth + 1, cursor => by
    simp only [program]
    refine Ensures.bind_peek ?_
    split
    · exact .nothing
    · next hk => exact ((follows depth).attempt hk).bind fun _ _ => (follows_program depth _).map

end Recorded

/-- **Reading a feed follows a course** from its beginning to an end of the input. What was read are the results
of the attempts at the outermost level. -/
theorem Feed.exists_course (feed : Feed) :
    ∃ next, Grammar.program feed.depthBound ⟨feed, []⟩ = .done feed.parse.program next ∧
      feed.parse.errors = next.errors.reverse ∧
      Recorded.program feed.depthBound ⟨feed, []⟩ = (.done feed.parse.program next, feed.attempts) ∧
      Course ⟨feed, []⟩ feed.attempts true next ∧ feed.parse.program = feed.attempts.filterMap Attempt.result ∧
      next.feed.head.kind = .endOfInput := by
  obtain ⟨program, next, hg, hp⟩ := feed.exists_parse
  have he : (Recorded.program feed.depthBound ⟨feed, []⟩).1 = .done program next :=
    (Recorded.erases_program feed.depthBound ⟨feed, []⟩).trans hg
  have hr : Recorded.program feed.depthBound ⟨feed, []⟩ = (.done program next, feed.attempts) := Prod.ext he rfl
  obtain ⟨hf, hk⟩ := Recorded.program_eq_done hr
  have hc := Recorded.follows_program feed.depthBound ⟨feed, []⟩
  unfold Recording.Follows Recording.Ensures at hc
  rw [hr] at hc
  rw [hp]
  exact ⟨next, hg, rfl, hr, hc, hf, hk⟩

end TinyScript
