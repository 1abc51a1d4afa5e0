import TinyScript.Proofs.Syntax.Binding
import TinyScript.Proofs.Syntax.Writing
import TinyScript.Syntax.Bound

/-! # Writings are read

Every writing of a program is read as that program, and no error is recorded (`Feed.parse_of_written`).

`Rule.Gives` says what a rule completes with unless it meets its bound. An expression at a level is read as
an operand that is then climbed from, so a writing at a rank is followed along its left side:
`Expr.Climbs` says that reading it comes to climbing from the expression as a whole, at some smaller bound.
Two things carry the induction: every operator that may stand at the rank is read at the level
(`Level.Admits`), and the token that follows binds no tighter than the rank.
-/

namespace TinyScript

/-- From a cursor on, a rule gives a value and leaves a cursor, unless it meets its bound. -/
def Rule.Gives {α : Type} (rule : Rule α) (cursor : Cursor) (value : α) (after : Cursor) : Prop :=
  rule cursor = .done value after ∨ rule cursor = .starved

namespace Rule

variable {α β : Type} {cursor after last : Cursor} {value : α} {result : β} {token : Token}
  {tokens : List Token} {line : Nat} {errors : List SyntaxError}

theorem gives_pure : (pure value : Rule α).Gives cursor value cursor :=
  .inl rfl

/-- A rule that meets its bound gives anything. -/
theorem gives_starve : (starve : Rule α).Gives cursor value after :=
  .inr rfl

/-- Rules in sequence give what they give one after the other. -/
theorem Gives.bind {rule : Rule α} {next : α → Rule β} (h : rule.Gives cursor value after)
    (hn : (next value).Gives after result last) : (rule >>= next).Gives cursor result last := by
  show Gives (Rule.bind rule next) cursor result last
  unfold Gives Rule.bind at *
  obtain h | h := h
  · rw [h]
    exact hn
  · rw [h]
    exact .inr rfl

theorem Gives.discard {rule : Rule α} (h : rule.Gives cursor value after) :
    (Functor.discard rule).Gives cursor () after :=
  h.bind gives_pure

theorem Gives.bind_peek {next : Token → Rule β} (h : (next cursor.feed.head).Gives cursor result last) :
    (peek >>= next).Gives cursor result last := h

theorem Gives.bind_peek_cons {next : Token → Rule β}
    (h : (next token).Gives ⟨⟨token :: tokens, line⟩, errors⟩ result last) :
    (peek >>= next).Gives ⟨⟨token :: tokens, line⟩, errors⟩ result last := h

theorem Gives.bind_take {next : Token → Rule β}
    (h : (next token).Gives ⟨⟨tokens, line⟩, errors⟩ result last) :
    (take >>= next).Gives ⟨⟨token :: tokens, line⟩, errors⟩ result last := h

theorem gives_expect {kind : Token.Kind} (hk : token.kind = kind) :
    (expect kind).Gives ⟨⟨token :: tokens, line⟩, errors⟩ token ⟨⟨tokens, line⟩, errors⟩ := by
  refine .inl ?_
  show (if token.kind = kind then take else fail _) _ = _
  rw [if_pos hk]
  rfl

theorem Gives.bind_expect {kind : Token.Kind} {next : Token → Rule β} (hk : token.kind = kind)
    (h : (next token).Gives ⟨⟨tokens, line⟩, errors⟩ result last) :
    (expect kind >>= next).Gives ⟨⟨token :: tokens, line⟩, errors⟩ result last :=
  (gives_expect hk).bind h

/-- A semicolon is passed over. -/
theorem gives_skipSemicolon (hk : token.kind = .semicolon) :
    skipSemicolon.Gives ⟨⟨token :: tokens, line⟩, errors⟩ () ⟨⟨tokens, line⟩, errors⟩ := by
  refine .inl ?_
  show (if token.kind = .semicolon then Functor.discard take else pure ()) _ = _
  rw [if_pos hk]
  rfl

/-- Any other token is left where it is. -/
theorem gives_skipSemicolon_of_ne (hk : cursor.feed.head.kind ≠ .semicolon) :
    skipSemicolon.Gives cursor () cursor := by
  refine .inl ?_
  show (if cursor.feed.head.kind = .semicolon then Functor.discard take else pure ()) _ = _
  rw [if_neg hk]
  rfl

/-- An attempt at a rule gives the value that the rule gives. -/
theorem Gives.attempt {rule : Rule α} (h : rule.Gives cursor value after) :
    rule.attempt.Gives cursor (some value) after := by
  unfold Gives Rule.attempt at *
  obtain h | h := h
  · rw [h]
    exact .inl rfl
  · rw [h]
    exact .inr rfl

end Rule

/-- Whatever continues an expression written at the rank is read at the level. -/
structure Level.Admits (level : Level) (rank : Nat) : Prop where
  call : level < .call
  operator : ∀ op : BinaryOp, rank ≤ op.level.rank → level < op.level

namespace Level

theorem Admits.mono {level : Level} {rank higher : Nat} (h : level.Admits rank) (hr : rank ≤ higher) :
    level.Admits higher :=
  ⟨h.call, fun op ho => h.operator op (Nat.le_trans hr ho)⟩

theorem Admits.raise {level : Level} {rank : Nat} (h : level.Admits rank) :
    level.Admits Level.call.rank :=
  ⟨h.call, fun op ho => absurd ho (by cases op <;> decide)⟩

theorem lowest_admits (rank : Nat) : lowest.Admits rank :=
  ⟨by decide, fun op _ => by cases op <;> decide⟩

theorem unary_admits : unary.Admits unary.rank :=
  ⟨by decide, fun op ho => absurd ho (by cases op <;> decide)⟩

/-- The right side of an operator is read at the operator's own level. -/
theorem admits_of_operator (op : BinaryOp) : op.level.Admits (op.level.rank + 1) :=
  ⟨by cases op <;> decide, fun _ ho => ho⟩

end Level

/-- What follows an expression written at a rank: nothing that binds tighter, and no `else`, which would
go to a condition at its end. -/
structure Feed.Follows (feed : Feed) (rank : Nat) : Prop where
  binding : feed.binding ≤ rank
  notElse : feed.head.kind ≠ .elseWord

/-- A kind of token that may follow any expression. -/
structure Token.Kind.Ends (kind : Token.Kind) : Prop where
  continues : Continuation.ofKind? kind = none
  notElse : kind ≠ .elseWord

namespace Feed

variable {feed : Feed}

/-- A token that ends an operand of a rank ends those of higher ranks too. -/
theorem Follows.mono {rank higher : Nat} (h : feed.Follows rank) (hr : rank ≤ higher) :
    feed.Follows higher :=
  ⟨Nat.le_trans h.binding hr, h.notElse⟩

theorem follows_of_ends (h : feed.head.kind.Ends) (rank : Nat) : feed.Follows rank := by
  refine ⟨?_, h.notElse⟩
  rw [binding_of_ofKind?_eq_none h.continues]
  exact Nat.zero_le rank

/-- A continuation follows what is written at its own level. -/
theorem follows_of_ofKind? {token : Token} {continuation : Continuation}
    (h : Continuation.ofKind? token.kind = some continuation) (tokens : List Token) (line : Nat) :
    (Feed.mk (token :: tokens) line).Follows continuation.level.rank :=
  ⟨Nat.le_of_eq (binding_of_ofKind?_eq_some h), fun hk => by
    rw [show token.kind = .elseWord from hk] at h
    cases h⟩

end Feed

namespace Grammar

open Rule

/-- Reading at a level comes to climbing from an expression, whatever the bound. -/
def Climbs (level : Level) (e : Expr) (cursor after : Cursor) : Prop :=
  ∀ depth, ∃ smaller, expression depth level cursor = climb smaller level e after

variable {level : Level} {e left : Expr} {cursor after last : Cursor} {token : Token}
  {tokens : List Token} {line : Nat} {errors : List SyntaxError}

/-- An operand is climbed from as soon as it is read. -/
theorem climbs_of_operand (h : ∀ depth, (operand (depth + 1)).Gives cursor e after) :
    Climbs level e cursor after
  | 0 => ⟨0, rfl⟩
  | 1 => ⟨0, rfl⟩
  | depth + 2 => by
    have hb : expression (depth + 2) level cursor =
        Rule.bind (operand (depth + 1)) (fun left => climb (depth + 1) level left) cursor := rfl
    rw [hb]
    unfold Rule.bind
    obtain h | h := h depth
    · rw [h]
      exact ⟨depth + 1, rfl⟩
    · rw [h]
      exact ⟨0, rfl⟩

/-- Climbing ends before a token that binds no tighter than the level. -/
theorem Climbs.gives (h : Climbs level e cursor after) (hb : after.feed.binding ≤ level.rank)
    (depth : Nat) : (expression depth level).Gives cursor e after := by
  obtain ⟨smaller, hs⟩ := h depth
  unfold Gives
  rw [hs]
  cases smaller with
  | zero => exact .inr rfl
  | succ smaller =>
    show (climb (smaller + 1) level e).Gives after e after
    simp only [climb]
    refine Gives.bind_peek ?_
    split
    · exact gives_pure
    · next continuation hc =>
      rw [Feed.binding_of_ofKind?_eq_some hc] at hb
      have hl : ¬level < continuation.level := Nat.not_lt.mpr hb
      rw [if_neg hl]
      exact gives_pure

/-- Climbing goes on with a continuation that binds tighter than the level. -/
theorem Climbs.continued {continuation : Continuation}
    (h : Climbs level left cursor ⟨⟨token :: tokens, line⟩, errors⟩)
    (hc : Continuation.ofKind? token.kind = some continuation) (hl : level < continuation.level)
    (hg : ∀ depth, (continued depth left token.line continuation).Gives
      ⟨⟨tokens, line⟩, errors⟩ e after) : Climbs level e cursor after := by
  intro depth
  obtain ⟨smaller, hs⟩ := h depth
  rw [hs]
  cases smaller with
  | zero => exact ⟨0, rfl⟩
  | succ smaller =>
    have hb : climb (smaller + 1) level left ⟨⟨token :: tokens, line⟩, errors⟩ =
        Rule.bind (Grammar.continued smaller left token.line continuation) (climb smaller level)
          ⟨⟨tokens, line⟩, errors⟩ := by
      simp only [climb, Bind.bind, Rule.bind, peek, Feed.head, List.head?_cons, Option.getD_some, hc]
      rw [if_pos hl]
      rfl
    rw [hb]
    unfold Rule.bind
    obtain hg | hg := hg smaller
    · rw [hg]
      exact ⟨smaller, rfl⟩
    · rw [hg]
      exact ⟨0, rfl⟩

/-- Wherever the tokens stand, reading them comes to climbing from the expression: at every level that
admits the rank, and before whatever may follow. -/
def ClimbsFrom (rank : Nat) (e : Expr) (tokens : List Token) : Prop :=
  ∀ (level : Level) (rest : List Token) (line : Nat) (errors : List SyntaxError), level.Admits rank →
    (Feed.mk rest line).Follows rank →
      Climbs level e ⟨⟨tokens ++ rest, line⟩, errors⟩ ⟨⟨rest, line⟩, errors⟩

/-- A whole expression is read up to where it ends. -/
theorem ClimbsFrom.whole {rest : List Token} (h : ClimbsFrom 0 e tokens)
    (he : (Feed.mk rest line).head.kind.Ends) (depth : Nat) :
    (expression depth .lowest).Gives ⟨⟨tokens ++ rest, line⟩, errors⟩ e ⟨⟨rest, line⟩, errors⟩ := by
  have hf := Feed.follows_of_ends he 0
  exact (h .lowest rest line errors (Level.lowest_admits 0) hf).gives hf.binding depth

/-- An expression is read up to the token that closes it. -/
theorem ClimbsFrom.whole_cons {closing : Token} {rest : List Token} (h : ClimbsFrom 0 e tokens)
    (he : closing.kind.Ends) (depth : Nat) :
    (expression depth .lowest).Gives ⟨⟨tokens ++ closing :: rest, line⟩, errors⟩ e
      ⟨⟨closing :: rest, line⟩, errors⟩ := by
  refine h.whole ?_ depth
  exact he

/-- Names with commas between them, in every depth. -/
theorem gives_parameterTail {names : List Ident} {tokens rest : List Token} {closing : Token}
    (h : Ident.WrittenTail names tokens) (hc : closing.kind = .rightParen) :
    ∀ depth, (parameterTail depth).Gives ⟨⟨tokens ++ closing :: rest, line⟩, errors⟩ names
      ⟨⟨rest, line⟩, errors⟩ := by
  induction h with
  | nil =>
    intro depth
    cases depth with
    | zero => exact gives_starve
    | succ depth =>
      refine Gives.bind_peek_cons ?_
      rw [if_neg (by rw [hc]; decide)]
      exact Gives.bind_expect hc gives_pure
  | cons comma token hcomma hk _ ih =>
    intro depth
    cases depth with
    | zero => exact gives_starve
    | succ depth =>
      refine Gives.bind_peek_cons ?_
      rw [if_pos hcomma]
      exact Gives.bind_take (Gives.bind_expect hk ((ih depth).bind gives_pure))

theorem gives_parameters {names : List Ident} {tokens rest : List Token} {opening closing : Token}
    (ho : opening.kind = .leftParen) (h : Ident.WrittenAll names tokens)
    (hc : closing.kind = .rightParen) (depth : Nat) :
    (parameters depth).Gives ⟨⟨opening :: (tokens ++ closing :: rest), line⟩, errors⟩ names
      ⟨⟨rest, line⟩, errors⟩ := by
  unfold parameters
  refine Gives.bind_expect ho ?_
  cases h with
  | nil =>
    refine Gives.bind_peek_cons ?_
    rw [if_pos hc]
    exact Gives.bind_take gives_pure
  | cons token hk ht =>
    refine Gives.bind_peek_cons ?_
    rw [if_neg (by rw [hk]; decide)]
    exact Gives.bind_expect hk ((gives_parameterTail ht hc depth).bind gives_pure)

/-- Without the word for it there is no alternative. -/
theorem gives_alternative_none (h : cursor.feed.head.kind ≠ .elseWord) (depth : Nat) :
    (alternative depth).Gives cursor none cursor := by
  cases depth with
  | zero => exact gives_starve
  | succ depth =>
    simp only [alternative]
    refine Gives.bind_peek ?_
    rw [if_neg h]
    exact gives_pure

theorem gives_alternative_some {elseWord : Token} {other : List Token} {body : Block}
    (he : elseWord.kind = .elseWord)
    (h : ∀ depth, (block depth).Gives ⟨⟨other, line⟩, errors⟩ body after) (depth : Nat) :
    (alternative depth).Gives ⟨⟨elseWord :: other, line⟩, errors⟩ (some body) after := by
  cases depth with
  | zero => exact gives_starve
  | succ depth =>
    simp only [alternative]
    refine Gives.bind_peek_cons ?_
    rw [if_pos he]
    exact Gives.bind_take ((h depth).bind gives_pure)

/-- A condition in parentheses and the block it chooses, up to the alternative or its absence. -/
theorem climbs_conditional {word opening closing : Token} {condition : Expr} {consequence : Block}
    {alternative? : Option Block} {body : List Token} {middle : Cursor} (hw : word.kind = .ifWord)
    (ho : opening.kind = .leftParen) (hc : ClimbsFrom 0 condition tokens)
    (hcl : closing.kind = .rightParen)
    (h : ∀ depth, (block depth).Gives ⟨⟨body, line⟩, errors⟩ consequence middle)
    (ha : ∀ depth, (alternative depth).Gives middle alternative? after) :
    Climbs level (.conditional condition consequence alternative? word.line)
      ⟨⟨word :: opening :: (tokens ++ closing :: body), line⟩, errors⟩ after := by
  refine climbs_of_operand fun depth => ?_
  have he : closing.kind.Ends := by
    rw [hcl]
    exact ⟨rfl, by decide⟩
  simp only [operand]
  refine Gives.bind_take ?_
  simp only [hw]
  refine Gives.bind_expect ho ((hc.whole_cons he depth).bind ?_)
  refine Gives.bind_expect hcl ((h depth).bind ?_)
  exact (ha depth).bind gives_pure

end Grammar

open Grammar Rule

/-- A token that can begin something is of no kind that cannot. -/
theorem Token.Kind.ne_of_begins {begins : Token.Kind → Bool} {kind other : Token.Kind}
    (h : begins kind = true) (ho : begins other = false) : kind ≠ other := by
  rintro rfl
  rw [h] at ho
  cases ho

/-- The first token of an expression is one that may begin an expression. -/
theorem Expr.Written.head_beginsExpression {rank : Nat} {e : Expr} {tokens : List Token}
    (h : e.Written rank tokens) (rest : List Token) (line : Nat) :
    (Feed.mk (tokens ++ rest) line).head.kind.beginsExpression = true := by
  obtain ⟨first, others, rfl, hb⟩ := h.exists_cons
  exact hb

/-- After an element of a list comes a comma or what closes the list. -/
theorem Expr.WrittenTail.ends_head {es : List Expr} {tokens : List Token} {closing : Token}
    (h : Expr.WrittenTail es tokens) (hc : closing.kind.Ends) (rest : List Token) (line : Nat) :
    (Feed.mk (tokens ++ closing :: rest) line).head.kind.Ends := by
  cases h with
  | nil => exact hc
  | cons comma hk _ _ =>
    show comma.kind.Ends
    rw [hk]
    exact ⟨rfl, by decide⟩

/-- A kind of token that closes a list. -/
structure Token.Kind.EndsList (kind : Token.Kind) : Prop extends kind.Ends where
  notComma : kind ≠ .comma
  begins : kind.beginsExpression = false

theorem Token.Kind.rightParen_endsList : Token.Kind.rightParen.EndsList :=
  ⟨⟨rfl, by decide⟩, by decide, rfl⟩

theorem Token.Kind.rightBracket_endsList : Token.Kind.rightBracket.EndsList :=
  ⟨⟨rfl, by decide⟩, by decide, rfl⟩

/-- Where the value of a statement ends, whatever stands there. -/
def Statement.Stops : Statement → Token.Kind → Prop
  | .leave none _, kind => endsBareReturn kind = true
  | _, kind => kind.Ends

/-- A semicolon stops every statement. -/
theorem Statement.stops_of_semicolon {s : Statement} {kind : Token.Kind} (h : kind = .semicolon) :
    s.Stops kind := by
  subst h
  unfold Statement.Stops
  split
  · rfl
  · exact ⟨rfl, by decide⟩

/-- A statement that ends before a token without a semicolon stops there. -/
theorem Statement.EndsBefore.stops {s : Statement} {kind : Token.Kind} (h : s.EndsBefore kind)
    (he : kind ≠ .elseWord) : s.Stops kind ∧ kind ≠ .semicolon := by
  cases s with
  | leave value line =>
    cases value with
    | none => obtain rfl | rfl := h <;> exact ⟨rfl, by decide⟩
    | some value => exact ⟨⟨h.2, he⟩, h.1⟩
  | bind name value line => exact ⟨⟨h.2, he⟩, h.1⟩
  | expression value line => exact ⟨⟨h.2, he⟩, h.1⟩
  | block body => exact ⟨⟨h.2, he⟩, h.1⟩

/-- Every statement is complete at the end of its block. -/
theorem Statement.endsBefore_rightBrace (s : Statement) : s.EndsBefore .rightBrace := by
  unfold Statement.EndsBefore
  split
  · exact .inl rfl
  · exact ⟨by decide, rfl⟩

/-- Every statement is complete at the end of the input. -/
theorem Statement.endsBefore_endOfInput (s : Statement) : s.EndsBefore .endOfInput := by
  unfold Statement.EndsBefore
  split
  · exact .inr rfl
  · exact ⟨by decide, rfl⟩

/-- The first token of a statement is one that may begin a statement. -/
theorem Statement.Written.head_beginsStatement {s : Statement} {tokens : List Token} (h : s.Written tokens)
    (rest : List Token) (line : Nat) :
    (Feed.mk (tokens ++ rest) line).head.kind.beginsStatement = true := by
  obtain ⟨first, others, rfl, hb⟩ := h.exists_cons
  exact hb

/-- A statement that is complete before the others, and before what follows them, stops where they
begin. -/
theorem Statement.WrittenAll.stops {s : Statement} {ss : List Statement} {others rest : List Token}
    {line : Nat} (h : Statement.WrittenAll ss others) (hn : ∀ next ∈ others.head?, s.EndsBefore next.kind)
    (hr : s.EndsBefore (Feed.mk rest line).head.kind)
    (he : (Feed.mk rest line).head.kind ≠ .elseWord) :
    s.Stops (Feed.mk (others ++ rest) line).head.kind ∧
      (Feed.mk (others ++ rest) line).head.kind ≠ .semicolon := by
  obtain rfl | ⟨first, more, rfl, hb⟩ := h.eq_nil_or_exists_cons
  · exact hr.stops he
  · exact (hn first rfl).stops (Token.Kind.ne_of_begins hb rfl)

namespace Grammar

theorem gives_entries_nil {tokens : List Token} {closing : Token} {line : Nat} {errors : List SyntaxError}
    (hc : closing.kind = .rightBrace) (depth : Nat) :
    (entries depth).Gives ⟨⟨closing :: tokens, line⟩, errors⟩ [] ⟨⟨tokens, line⟩, errors⟩ := by
  cases depth with
  | zero => exact gives_starve
  | succ depth =>
    simp only [entries]
    refine Gives.bind_peek_cons ?_
    rw [if_pos hc]
    exact Gives.bind_take gives_pure

theorem gives_entrySeparator {tokens : List Token} {comma : Token} {line : Nat}
    {errors : List SyntaxError} (hc : comma.kind = .comma) :
    entrySeparator.Gives ⟨⟨comma :: tokens, line⟩, errors⟩ () ⟨⟨tokens, line⟩, errors⟩ := by
  unfold entrySeparator
  refine Gives.bind_peek_cons ?_
  rw [if_neg (by rw [hc]; decide)]
  exact (gives_expect hc).discard

/-- Before the closing brace no comma is needed. -/
theorem gives_entrySeparator_of_rightBrace {tokens : List Token} {closing : Token} {line : Nat}
    {errors : List SyntaxError} (hc : closing.kind = .rightBrace) :
    entrySeparator.Gives ⟨⟨closing :: tokens, line⟩, errors⟩ () ⟨⟨closing :: tokens, line⟩, errors⟩ := by
  unfold entrySeparator
  refine Gives.bind_peek_cons ?_
  rw [if_pos hc]
  exact gives_pure

/-- An entry that is read, with what separates it from the next one, stands before those after it. -/
theorem gives_entries_succ {key value : Expr} {entries : List (Expr × Expr)} {colon : Token}
    {before after rest : List Token} {line depth : Nat} {errors : List SyntaxError} {middle last : Cursor}
    (hb : ∀ others, (Feed.mk (before ++ others) line).head.kind.beginsExpression = true)
    (hk : ClimbsFrom 0 key before) (hc : colon.kind = .colon) (hv : ClimbsFrom 0 value after)
    (he : (Feed.mk rest line).head.kind.Ends)
    (hs : entrySeparator.Gives ⟨⟨rest, line⟩, errors⟩ () middle)
    (ht : (Grammar.entries depth).Gives middle entries last) :
    (Grammar.entries (depth + 1)).Gives ⟨⟨before ++ colon :: (after ++ rest), line⟩, errors⟩
      ((key, value) :: entries) last := by
  have hco : colon.kind.Ends := by
    rw [hc]
    exact ⟨rfl, by decide⟩
  simp only [Grammar.entries]
  refine Gives.bind_peek ?_
  rw [if_neg (Token.Kind.ne_of_begins (hb _) rfl)]
  refine (hk.whole_cons hco depth).bind (Gives.bind_expect hc ?_)
  exact (hv.whole he depth).bind (hs.bind (ht.bind gives_pure))

variable {s : Statement} {ss : List Statement} {tokens tail : List Token} {after last : Cursor}
  {line depth : Nat} {errors : List SyntaxError}

/-- A statement that is read stands before those that are read after it. -/
theorem gives_attempt_bind {rest : Rule (List Statement)} {cursor : Cursor}
    (h : (statement depth).Gives cursor s after) (hr : rest.Gives after ss last) :
    (attempt (statement depth) >>= fun first => rest >>= fun others =>
      (return first.toList ++ others : Rule (List Statement))).Gives cursor (s :: ss) last :=
  h.attempt.bind (hr.bind gives_pure)

/-- A written statement is read, and the rest after it. -/
theorem gives_statements_succ (hw : s.Written tokens)
    (h : (statement depth).Gives ⟨⟨tokens ++ tail, line⟩, errors⟩ s after)
    (hr : (statements depth).Gives after ss last) :
    (statements (depth + 1)).Gives ⟨⟨tokens ++ tail, line⟩, errors⟩ (s :: ss) last := by
  have hb := hw.head_beginsStatement tail line
  simp only [statements]
  refine Gives.bind_peek ?_
  rw [if_neg (Token.Kind.ne_of_begins hb rfl), if_neg (Token.Kind.ne_of_begins hb rfl)]
  exact gives_attempt_bind h hr

theorem gives_program_succ (hw : s.Written tokens)
    (h : (statement depth).Gives ⟨⟨tokens ++ tail, line⟩, errors⟩ s after)
    (hr : (program depth).Gives after ss last) :
    (program (depth + 1)).Gives ⟨⟨tokens ++ tail, line⟩, errors⟩ (s :: ss) last := by
  have hb := hw.head_beginsStatement tail line
  unfold program
  refine Gives.bind_peek ?_
  rw [if_neg (Token.Kind.ne_of_begins hb rfl)]
  exact gives_attempt_bind h hr

/-- A `return` is bare unless an expression begins after it. -/
theorem endsBareReturn_eq_false {kind : Token.Kind} (h : kind.beginsExpression = true) :
    ¬endsBareReturn kind = true := by
  cases kind <;> first | decide | cases h

end Grammar

mutual

/-- Reading a writing comes to climbing from the expression as a whole. -/
theorem Expr.Written.climbs {rank : Nat} {e : Expr} {tokens : List Token} :
    Expr.Written rank e tokens → ClimbsFrom rank e tokens
  | .ident token hk => fun level rest line errors _ _ => climbs_of_operand fun depth => by
    simp only [operand]
    refine Gives.bind_take ?_
    simp only [hk]
    exact gives_pure
  | .number token hk hv hf => fun level rest line errors _ _ => climbs_of_operand fun depth => by
    simp only [operand]
    refine Gives.bind_take ?_
    simp only [hk, numeral, hv, hf, if_true]
    exact gives_pure
  | .string token hk => fun level rest line errors _ _ => climbs_of_operand fun depth => by
    simp only [operand]
    refine Gives.bind_take ?_
    simp only [hk]
    exact gives_pure
  | .boolean token value hk => fun level rest line errors _ _ => climbs_of_operand fun depth => by
    simp only [operand]
    refine Gives.bind_take ?_
    cases value <;> simp only [hk, Token.Kind.ofBool] <;> exact gives_pure
  | .array opening closing ho h hc => fun level rest line errors _ _ => climbs_of_operand fun depth => by
    simp only [operand, List.cons_append, List.append_assoc, List.nil_append]
    refine Gives.bind_take ?_
    simp only [ho]
    exact (h.gives closing rest line errors hc Token.Kind.rightBracket_endsList depth).bind gives_pure
  | .hash opening closing ho h hc => fun level rest line errors _ _ => climbs_of_operand fun depth => by
    simp only [operand, List.cons_append, List.append_assoc, List.nil_append]
    refine Gives.bind_take ?_
    simp only [ho]
    exact (h.gives closing rest line errors hc depth).bind gives_pure
  | .unary token op hr hk h => fun level rest line errors _ hf => climbs_of_operand fun depth => by
    have hf := hf.mono hr
    have hg := (h.climbs .unary rest line errors Level.unary_admits hf).gives hf.binding depth
    simp only [operand, List.cons_append]
    refine Gives.bind_take ?_
    cases op <;> simp only [hk, UnaryOp.kind] <;> exact hg.bind gives_pure
  | .binary token op hr hl hk h => fun level rest line errors ha hf => by
    have hf := hf.mono hr
    have hc : Continuation.ofKind? token.kind = some (.operator op) := by
      rw [hk, Continuation.ofKind?_kind]
    simp only [List.cons_append, List.append_assoc]
    -- the left side is followed at the same level, up to the operator, which the level lets continue it
    refine (hl.climbs level _ line errors (ha.mono hr) (Feed.follows_of_ofKind? hc _ line)).continued hc
      (ha.operator op hr) fun depth => ?_
    cases depth with
    | zero => exact gives_starve
    | succ depth =>
      simp only [continued]
      have hr := h.climbs op.level rest line errors (Level.admits_of_operator op)
        (hf.mono (Nat.le_succ _))
      exact (hr.gives hf.binding depth).bind gives_pure
  | .conditional word opening closing hw ho hc hcl h => fun level rest line errors _ hf => by
    simp only [List.cons_append, List.append_assoc]
    exact climbs_conditional hw ho hc.climbs hcl (h.gives rest line errors)
      (gives_alternative_none hf.notElse)
  | .conditionalElse word opening closing elseWord hw ho hc hcl h he ha =>
    fun level rest line errors _ _ => by
      simp only [List.cons_append, List.append_assoc]
      exact climbs_conditional hw ho hc.climbs hcl (h.gives (elseWord :: (_ ++ rest)) line errors)
        (gives_alternative_some he (ha.gives rest line errors))
  | .function word opening closing hw ho hp hc h => fun level rest line errors _ _ =>
    climbs_of_operand fun depth => by
      simp only [operand, List.cons_append, List.append_assoc]
      refine Gives.bind_take ?_
      simp only [hw]
      refine (gives_parameters ho hp hc depth).bind ?_
      exact (h.gives rest line errors depth).bind gives_pure
  | .call opening closing hf ho h hc => fun level rest line errors ha _ => by
    have hk : Continuation.ofKind? opening.kind = some .call := by
      rw [ho]
      rfl
    simp only [List.cons_append, List.append_assoc, List.nil_append]
    refine (hf.climbs level _ line errors ha.raise (Feed.follows_of_ofKind? hk _ line)).continued hk ha.call
      fun depth => ?_
    cases depth with
    | zero => exact gives_starve
    | succ depth =>
      simp only [continued]
      exact (h.gives closing rest line errors hc Token.Kind.rightParen_endsList depth).bind gives_pure
  | .index opening closing hf ho h hc => fun level rest line errors ha _ => by
    have hk : Continuation.ofKind? opening.kind = some .index := by
      rw [ho]
      rfl
    have he : closing.kind.Ends := hc ▸ Token.Kind.rightBracket_endsList.toEnds
    simp only [List.cons_append, List.append_assoc, List.nil_append]
    refine (hf.climbs level _ line errors ha.raise (Feed.follows_of_ofKind? hk _ line)).continued hk ha.call
      fun depth => ?_
    cases depth with
    | zero => exact gives_starve
    | succ depth =>
      simp only [continued]
      exact (h.climbs.whole_cons he depth).bind (Gives.bind_expect hc gives_pure)
  | .grouped opening closing ho h hc => fun level rest line errors _ _ => climbs_of_operand fun depth => by
    have he : closing.kind.Ends := hc ▸ Token.Kind.rightParen_endsList.toEnds
    simp only [operand, List.cons_append, List.append_assoc, List.nil_append]
    refine Gives.bind_take ?_
    simp only [ho]
    exact (h.climbs.whole_cons he depth).bind (Gives.bind_expect hc gives_pure)

theorem Expr.WrittenTail.gives {es : List Expr} {tokens : List Token} :
    Expr.WrittenTail es tokens → ∀ (closing : Token) (rest : List Token) (line : Nat)
      (errors : List SyntaxError) {kind : Token.Kind}, closing.kind = kind → kind.EndsList →
        ∀ depth, (listTail depth kind).Gives ⟨⟨tokens ++ closing :: rest, line⟩, errors⟩ es
          ⟨⟨rest, line⟩, errors⟩
  | _, _, _, _, _, _, _, _, 0 => gives_starve
  | .nil, closing, rest, line, errors, _, hc, hk, depth + 1 => by
    simp only [listTail, List.nil_append]
    refine Gives.bind_peek_cons ?_
    rw [if_neg (by rw [hc]; exact hk.notComma)]
    exact Gives.bind_expect hc gives_pure
  | .cons comma hcomma h ht, closing, rest, line, errors, _, hc, hk, depth + 1 => by
    have hcl : closing.kind.Ends := hc ▸ hk.toEnds
    have he := ht.ends_head hcl rest line
    simp only [listTail, List.cons_append, List.append_assoc]
    refine Gives.bind_peek_cons ?_
    rw [if_pos hcomma]
    refine Gives.bind_take ?_
    refine (h.climbs.whole he depth).bind ?_
    exact (ht.gives closing rest line errors hc hk depth).bind gives_pure

/-- A list is read up to the token that closes it, with or without a comma at the end. -/
theorem Expr.WrittenAll.gives {es : List Expr} {tokens : List Token} :
    Expr.WrittenAll es tokens → ∀ (closing : Token) (rest : List Token) (line : Nat)
      (errors : List SyntaxError) {kind : Token.Kind}, closing.kind = kind → kind.EndsList →
        ∀ depth, (list depth kind).Gives ⟨⟨tokens ++ closing :: rest, line⟩, errors⟩ es
          ⟨⟨rest, line⟩, errors⟩
  | _, _, _, _, _, _, _, _, 0 => gives_starve
  | .nil, closing, rest, line, errors, _, hc, hk, depth + 1 => by
    simp only [list, List.nil_append]
    refine Gives.bind_peek_cons ?_
    rw [if_pos hc]
    exact Gives.bind_take gives_pure
  | .cons h ht, closing, rest, line, errors, _, hc, hk, depth + 1 => by
    have hcl : closing.kind.Ends := hc ▸ hk.toEnds
    have he := ht.ends_head hcl rest line
    simp only [list, List.append_assoc]
    refine Gives.bind_peek ?_
    rw [if_neg (Token.Kind.ne_of_begins (h.head_beginsExpression _ line) hk.begins)]
    refine (h.climbs.whole he depth).bind ?_
    exact (ht.gives closing rest line errors hc hk depth).bind gives_pure

theorem Expr.WrittenEntries.gives {entries : List (Expr × Expr)} {tokens : List Token} :
    Expr.WrittenEntries entries tokens → ∀ (closing : Token) (rest : List Token) (line : Nat)
      (errors : List SyntaxError), closing.kind = .rightBrace →
        ∀ depth, (Grammar.entries depth).Gives ⟨⟨tokens ++ closing :: rest, line⟩, errors⟩ entries
          ⟨⟨rest, line⟩, errors⟩
  | _, _, _, _, _, _, 0 => gives_starve
  | .nil, closing, rest, line, errors, hc, depth + 1 => by
    exact gives_entries_nil hc (depth + 1)
  | .last colon hk hcolon hv, closing, rest, line, errors, hc, depth + 1 => by
    have he : closing.kind.Ends := hc ▸ ⟨rfl, by decide⟩
    simp only [List.cons_append, List.append_assoc]
    exact gives_entries_succ (fun others => hk.head_beginsExpression others line) hk.climbs hcolon hv.climbs
      he (gives_entrySeparator_of_rightBrace hc) (gives_entries_nil hc depth)
  | .cons colon comma hk hcolon hv hcomma ht, closing, rest, line, errors, hc, depth + 1 => by
    have he : comma.kind.Ends := hcomma ▸ ⟨rfl, by decide⟩
    simp only [List.cons_append, List.append_assoc]
    exact gives_entries_succ (fun others => hk.head_beginsExpression others line) hk.climbs hcolon hv.climbs
      he (gives_entrySeparator hcomma) (ht.gives closing rest line errors hc depth)

/-- A statement is read with the semicolon that may follow it. -/
theorem Statement.Written.gives {s : Statement} {tokens : List Token} :
    Statement.Written s tokens → ∀ (rest : List Token) (line : Nat) (errors : List SyntaxError)
      {after : Cursor}, s.Stops (Feed.mk rest line).head.kind →
        skipSemicolon.Gives ⟨⟨rest, line⟩, errors⟩ () after →
          ∀ depth, (statement depth).Gives ⟨⟨tokens ++ rest, line⟩, errors⟩ s after
  | _, _, _, _, _, _, _, 0 => gives_starve
  | .bind word token sign hw hk hs h, rest, line, errors, _, he, hg, depth + 1 => by
    simp only [statement, List.cons_append]
    refine Gives.bind_peek_cons ?_
    simp only [hw]
    refine Gives.bind_take ?_
    refine Gives.bind_expect hk (Gives.bind_expect hs ?_)
    refine (h.climbs.whole he depth).bind ?_
    exact hg.bind gives_pure
  | .leaveBare word hw, rest, line, errors, _, he, hg, depth + 1 => by
    simp only [statement, List.cons_append, List.nil_append]
    refine Gives.bind_peek_cons ?_
    simp only [hw]
    refine Gives.bind_take ?_
    refine Gives.bind_peek ?_
    rw [if_pos (show endsBareReturn _ = true from he)]
    exact hg.bind gives_pure
  | .leave word hw h, rest, line, errors, _, he, hg, depth + 1 => by
    simp only [statement, List.cons_append]
    refine Gives.bind_peek_cons ?_
    simp only [hw]
    refine Gives.bind_take ?_
    refine Gives.bind_peek ?_
    rw [if_neg (endsBareReturn_eq_false (h.head_beginsExpression rest line))]
    refine (h.climbs.whole he depth).bind ?_
    exact hg.bind gives_pure
  | .expression first h, rest, line, errors, _, he, hg, depth + 1 => by
    have hb := h.head_beginsExpression rest line
    simp only [statement, List.cons_append]
    refine Gives.bind_peek_cons ?_
    split
    · next hk => exact absurd hk (Token.Kind.ne_of_begins hb rfl)
    · next hk => exact absurd hk (Token.Kind.ne_of_begins hb rfl)
    · refine (h.climbs.whole he depth).bind ?_
      exact hg.bind gives_pure

/-- The statements of a block are read up to its closing brace. -/
theorem Statement.WrittenAll.gives {ss : List Statement} {tokens : List Token} :
    Statement.WrittenAll ss tokens → ∀ (closing : Token) (rest : List Token) (line : Nat)
      (errors : List SyntaxError), closing.kind = .rightBrace →
        ∀ depth, (statements depth).Gives ⟨⟨tokens ++ closing :: rest, line⟩, errors⟩ ss
          ⟨⟨rest, line⟩, errors⟩
  | _, _, _, _, _, _, 0 => gives_starve
  | .nil, closing, rest, line, errors, hc, depth + 1 => by
    simp only [statements, List.nil_append]
    refine Gives.bind_peek_cons ?_
    rw [if_pos hc]
    exact Gives.bind_take gives_pure
  | .ended semicolon h hs ht, closing, rest, line, errors, hc, depth + 1 => by
    rw [List.append_assoc, List.cons_append]
    refine gives_statements_succ h (h.gives _ line errors ?_ (gives_skipSemicolon hs) depth)
      (ht.gives closing rest line errors hc depth)
    exact Statement.stops_of_semicolon hs
  | .unended h hn ht, closing, rest, line, errors, hc, depth + 1 => by
    have hcl : (Feed.mk (closing :: rest) line).head.kind = .rightBrace := hc
    obtain ⟨he, hs⟩ := ht.stops hn (hcl ▸ Statement.endsBefore_rightBrace _) (by rw [hcl]; decide)
    rw [List.append_assoc]
    exact gives_statements_succ h (h.gives _ line errors he (gives_skipSemicolon_of_ne hs) depth)
      (ht.gives closing rest line errors hc depth)

/-- A block is read with both its braces. -/
theorem Block.Written.gives {body : Block} {tokens : List Token} :
    Block.Written body tokens → ∀ (rest : List Token) (line : Nat) (errors : List SyntaxError) (depth),
      (block depth).Gives ⟨⟨tokens ++ rest, line⟩, errors⟩ body ⟨⟨rest, line⟩, errors⟩
  | _, _, _, _, 0 => gives_starve
  | .mk opening closing ho h hc, rest, line, errors, depth + 1 => by
    simp only [block, List.cons_append, List.append_assoc, List.nil_append]
    exact Gives.bind_expect ho ((h.gives closing rest line errors hc depth).bind gives_pure)

end

/-- The rule of a program reads statements up to the end of the input. -/
theorem Statement.WrittenAll.gives_program {ss : List Statement} {tokens : List Token} :
    Statement.WrittenAll ss tokens → ∀ (rest : List Token) (line : Nat) (errors : List SyntaxError),
      (Feed.mk rest line).head.kind = .endOfInput →
        ∀ depth, (program depth).Gives ⟨⟨tokens ++ rest, line⟩, errors⟩ ss ⟨⟨rest, line⟩, errors⟩
  | _, _, _, _, _, 0 => gives_starve
  | .nil, rest, line, errors, he, depth + 1 => by
    unfold program
    refine Gives.bind_peek ?_
    rw [List.nil_append, if_pos he]
    exact gives_pure
  | .ended semicolon h hs ht, rest, line, errors, he, depth + 1 => by
    rw [List.append_assoc, List.cons_append]
    refine gives_program_succ h (h.gives _ line errors ?_ (gives_skipSemicolon hs) depth)
      (ht.gives_program rest line errors he depth)
    exact Statement.stops_of_semicolon hs
  | .unended h hn ht, rest, line, errors, he, depth + 1 => by
    obtain ⟨hst, hs⟩ := ht.stops hn (he ▸ Statement.endsBefore_endOfInput _) (by rw [he]; decide)
    rw [List.append_assoc]
    exact gives_program_succ h (h.gives _ line errors hst (gives_skipSemicolon_of_ne hs) depth)
      (ht.gives_program rest line errors he depth)

/-- **A writing is read as the program it is a writing of**, without an error, whatever stands after the
end of the input. -/
theorem Feed.parse_of_written {program : Program} {tokens rest : List Token} {line : Nat}
    (h : Statement.WrittenAll program tokens) (he : (Feed.mk rest line).head.kind = .endOfInput) :
    (Feed.mk (tokens ++ rest) line).parse = ⟨program, []⟩ := by
  obtain ⟨statements, next, hp, hf⟩ := (Feed.mk (tokens ++ rest) line).exists_parse
  obtain hg | hg := h.gives_program rest line [] he (Feed.mk (tokens ++ rest) line).depthBound
  · rw [hg] at hp
    cases hp
    exact hf
  · rw [hg] at hp
    cases hp

end TinyScript
