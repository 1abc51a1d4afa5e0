import TinyScript.Proofs.Syntax.Binding
import TinyScript.Proofs.Syntax.Reads
import TinyScript.Proofs.Syntax.Writing
import TinyScript.Syntax.Bound

/-! # What is read without an error is a writing

A feed that is read without an error holds a writing of the program that was read
(`Feed.written_of_errors_eq_nil`): no token is dropped and none is invented.

The promises of the rules that climb levels mention how tightly the next token would continue the
expression (`Feed.binding`). A rule stops where that is no tighter than its level, and this is why an
operand that it hands on need not stand in parentheses.
-/

namespace TinyScript

/-- What is taken where a closing token follows what was read. -/
def Token.Kind.Closes {α : Type} (closing : Token.Kind) (written : α → List Token → Prop) (value : α)
    (tokens : List Token) : Prop :=
  ∃ body close, tokens = body ++ [close] ∧ close.kind = closing ∧ written value body

/-- An operand is written at the rank of prefixes or tighter, and no tighter continuation follows. -/
def Expr.WrittenOperand (e : Expr) (tokens : List Token) (feed : Feed) : Prop :=
  ∃ rank, Level.unary.rank ≤ rank ∧ e.Written rank tokens ∧ feed.binding ≤ rank

/-- A statement with the semicolon that ends it, or complete without one. -/
def Statement.WrittenEnded (s : Statement) (tokens : List Token) (feed : Feed) : Prop :=
  ∃ body, s.Written body ∧
    ((tokens = body ∧ s.EndsBefore feed.head.kind) ∨
      ∃ semicolon : Token, semicolon.kind = .semicolon ∧ tokens = body ++ [semicolon])

/-- An operand that is complete whatever follows. -/
theorem Expr.writtenOperand_of_forall {e : Expr} {tokens : List Token} {feed : Feed}
    (h : ∀ rank, e.Written rank tokens) : e.WrittenOperand tokens feed :=
  ⟨Level.call.rank, by decide, h _, Feed.binding_le_call⟩

/-- What a statement begins with stands before what ends it. -/
theorem Statement.writtenEnded_append {s : Statement} (words : List Token) {body tokens : List Token}
    {feed : Feed} (hw : s.Written (words ++ body))
    (h : (tokens = body ∧ s.EndsBefore feed.head.kind) ∨
      ∃ semicolon : Token, semicolon.kind = .semicolon ∧ tokens = body ++ [semicolon]) :
    s.WrittenEnded (words ++ tokens) feed := by
  refine ⟨words ++ body, hw, ?_⟩
  obtain ⟨rfl, he⟩ | ⟨semicolon, hk, rfl⟩ := h
  · exact .inl ⟨rfl, he⟩
  · exact .inr ⟨semicolon, hk, (List.append_assoc ..).symm⟩

/-- A statement stands before others if it ends before the first of them. -/
theorem Statement.WrittenEnded.cons {s : Statement} {ss : List Statement} {tokens others : List Token}
    {feed : Feed} (h : s.WrittenEnded tokens feed) (hf : ∀ next ∈ others.head?, feed.head = next)
    (hs : Statement.WrittenAll ss others) : Statement.WrittenAll (s :: ss) (tokens ++ others) := by
  obtain ⟨body, hw, ⟨rfl, he⟩ | ⟨semicolon, hk, rfl⟩⟩ := h
  · exact .unended hw (fun next hn => hf next hn ▸ he) hs
  · rw [List.append_assoc, List.singleton_append]
    exact .ended semicolon hw hk hs

/-- The next token is the first of those that are still there. -/
theorem Feed.head_eq_of_mem_head? {feed : Feed} {tokens others : List Token}
    (h : feed.tokens = tokens ++ others) : ∀ next ∈ tokens.head?, feed.head = next := by
  intro next hn
  cases tokens with
  | nil => cases hn
  | cons token tokens =>
    cases hn
    simp only [Feed.head, h, List.cons_append, List.head?_cons, Option.getD_some]

namespace Grammar

open Rule

theorem reads_parameterTail : ∀ (depth : Nat) (cursor : Cursor),
    (parameterTail depth).Reads cursor fun names tokens _ =>
      Token.Kind.rightParen.Closes Ident.WrittenTail names tokens
  | 0, _ => trivial
  | depth + 1, cursor => by
    unfold parameterTail
    refine Reads.bind_peek ?_
    split
    · next hk =>
      refine Reads.bind_take (by rw [hk]; decide) fun _ => ?_
      refine Reads.bind_expect (by decide) fun token c1 ht => ?_
      refine ((reads_parameterTail depth c1).mono ?_).map
      rintro names _ _ ⟨body, close, rfl, hc, h⟩
      exact ⟨_, close, rfl, hc, .cons _ token hk ht h⟩
    · refine Reads.bind_expect (by decide) fun close _ hc => reads_pure ?_
      exact ⟨[], close, rfl, hc, .nil⟩

theorem reads_parameters (depth : Nat) (cursor : Cursor) :
    (parameters depth).Reads cursor fun names tokens _ =>
      ∃ opening others, opening.kind = .leftParen ∧ tokens = opening :: others ∧
        Token.Kind.rightParen.Closes Ident.WrittenAll names others := by
  unfold parameters
  refine Reads.bind_expect (by decide) fun opening c1 ho => ?_
  refine Reads.bind_peek ?_
  split
  · next hk =>
    refine Reads.bind_take (by rw [hk]; decide) fun _ => reads_pure ?_
    exact ⟨opening, _, ho, rfl, [], _, rfl, hk, .nil⟩
  · refine Reads.bind_expect (by decide) fun token c2 ht => ?_
    refine ((reads_parameterTail depth c2).mono ?_).map
    rintro names _ _ ⟨body, close, rfl, hc, h⟩
    exact ⟨opening, _, ho, rfl, _, close, rfl, hc, .cons token ht h⟩

/-- What each rule reads within a bound on the depth of calls. -/
structure Sound (depth : Nat) : Prop where
  expression : ∀ level cursor, (expression depth level).Reads cursor fun e tokens feed =>
    e.Written level.floor tokens ∧ feed.binding ≤ level.rank
  operand : ∀ cursor, (operand depth).Reads cursor Expr.WrittenOperand
  climb : ∀ level left cursor, (climb depth level left).Reads cursor fun e tokens feed =>
    ∀ rank before, left.Written rank before → level.floor ≤ rank → cursor.feed.binding ≤ rank →
      e.Written level.floor (before ++ tokens) ∧ feed.binding ≤ level.rank
  continued : ∀ left token continuation cursor, Continuation.ofKind? token.kind = some continuation →
    (continued depth left token.line continuation).Reads cursor fun e tokens feed =>
      ∀ before, left.Written continuation.level.rank before →
        e.Written continuation.level.rank (before ++ token :: tokens) ∧
          feed.binding ≤ continuation.level.rank
  list : ∀ closing cursor, closing ≠ .endOfInput →
    (list depth closing).Reads cursor fun es tokens _ => closing.Closes Expr.WrittenAll es tokens
  listTail : ∀ closing cursor, closing ≠ .endOfInput →
    (listTail depth closing).Reads cursor fun es tokens _ => closing.Closes Expr.WrittenTail es tokens
  entries : ∀ cursor, (entries depth).Reads cursor fun entries tokens _ =>
    Token.Kind.rightBrace.Closes Expr.WrittenEntries entries tokens ∧
      (cursor.feed.head.kind = .rightBrace → entries = [])
  alternative : ∀ cursor, (alternative depth).Reads cursor fun body? tokens _ =>
    (body? = none ∧ tokens = []) ∨ ∃ word body others, body? = some body ∧ tokens = word :: others ∧
      word.kind = .elseWord ∧ body.Written others
  block : ∀ cursor, (block depth).Reads cursor fun body tokens _ => body.Written tokens
  statements : ∀ cursor, (statements depth).Reads cursor fun ss tokens _ =>
    Token.Kind.rightBrace.Closes Statement.WrittenAll ss tokens
  statement : ∀ cursor, (statement depth).Reads cursor Statement.WrittenEnded

variable {depth : Nat} {cursor : Cursor}

theorem Sound.expression_succ (s : Sound depth) (level : Level) :
    (Grammar.expression (depth + 1) level).Reads cursor fun e tokens feed =>
      e.Written level.floor tokens ∧ feed.binding ≤ level.rank := by
  simp only [Grammar.expression]
  refine (s.operand cursor).bind fun left c1 => (s.climb level left c1).mono ?_
  rintro e tokens feed h before ⟨rank, hr, hw, hb⟩
  exact h rank before hw (Nat.le_trans level.floor_le_unary hr) hb

/-- An expression is a whole one where it is read at the lowest level. -/
theorem Sound.whole (s : Sound depth) (cursor : Cursor) :
    (Grammar.expression depth .lowest).Reads cursor fun e tokens feed =>
      e.Written 0 tokens ∧ Continuation.ofKind? feed.head.kind = none :=
  (s.expression .lowest cursor).mono fun _ _ _ h =>
    ⟨h.1.mono (Nat.zero_le _), Feed.ofKind?_eq_none h.2⟩

theorem reads_numeral {token : Token} (hk : token.kind = .number) :
    (numeral token).Reads cursor fun e tokens feed => e.WrittenOperand (token :: tokens) feed := by
  unfold numeral
  split
  · next value hv =>
    split
    · next hf => exact reads_pure (Expr.writtenOperand_of_forall fun _ => .number token hk hv hf)
    · exact reads_fail _
  · exact reads_fail _

theorem Sound.operand_succ (s : Sound depth) :
    (Grammar.operand (depth + 1)).Reads cursor Expr.WrittenOperand := by
  simp only [Grammar.operand]
  by_cases he : cursor.feed.head.kind = .endOfInput
  · -- the end of the input is taken like any other token, and begins no expression
    show Reads (Rule.bind take _) cursor _
    unfold Reads Rule.bind take
    simp only [he]
    exact List.cons_ne_nil _ _
  refine Reads.bind_take he fun after => ?_
  have unary (op : UnaryOp) (hk : cursor.feed.head.kind = op.kind) :
      (Grammar.expression depth .unary >>= fun right =>
        (return .unary op right cursor.feed.head.line : Rule Expr)).Reads after fun e tokens feed =>
          e.WrittenOperand (cursor.feed.head :: tokens) feed := by
    refine ((s.expression .unary after).mono ?_).map
    rintro right tokens feed ⟨hw, hb⟩
    exact ⟨Level.unary.rank, Nat.le_refl _, .unary _ op (Nat.le_refl _) hk hw, hb⟩
  split
  · next hk => exact reads_pure (Expr.writtenOperand_of_forall fun _ => .ident _ hk)
  · next hk => exact reads_numeral hk
  · next hk => exact reads_pure (Expr.writtenOperand_of_forall fun _ => .string _ hk)
  · next hk => exact reads_pure (Expr.writtenOperand_of_forall fun _ => .boolean _ true hk)
  · next hk => exact reads_pure (Expr.writtenOperand_of_forall fun _ => .boolean _ false hk)
  · next hk => exact unary .not hk
  · next hk => exact unary .negate hk
  · next hk =>
    refine (s.whole after).bind fun inner c1 => ?_
    refine Reads.bind_expect (by decide) fun closing c2 hc => reads_pure ?_
    rintro tokens ⟨hw, _⟩
    exact Expr.writtenOperand_of_forall fun _ => .grouped _ closing hk hw hc
  · next hk =>
    refine Reads.bind_expect (by decide) fun opening c1 ho => ?_
    refine (s.whole c1).bind fun condition c2 => ?_
    refine Reads.bind_expect (by decide) fun closing c3 hc => ?_
    refine (s.block c3).bind fun consequence c4 => ?_
    refine ((s.alternative c4).mono ?_).map
    rintro alternative tokens feed ha body hb condTokens ⟨hw, _⟩
    refine Expr.writtenOperand_of_forall fun _ => ?_
    obtain ⟨rfl, rfl⟩ | ⟨elseWord, other, others, rfl, rfl, he, ho'⟩ := ha
    · rw [List.append_nil]
      exact .conditional _ opening closing hk ho hw hc hb
    · exact .conditionalElse _ opening closing elseWord hk ho hw hc hb he ho'
  · next hk =>
    refine (reads_parameters depth after).bind fun parameters c1 => ?_
    refine ((s.block c1).mono ?_).map
    rintro body tokens feed hb _ ⟨opening, _, ho, rfl, names, closing, rfl, hc, hp⟩
    refine Expr.writtenOperand_of_forall fun _ => ?_
    rw [List.cons_append, List.append_assoc, List.singleton_append]
    exact .function _ opening closing hk ho hp hc hb
  · next hk =>
    refine ((s.list .rightBracket after (by decide)).mono ?_).map
    rintro elements _ feed ⟨body, closing, rfl, hc, h⟩
    exact Expr.writtenOperand_of_forall fun _ => .array _ closing hk h hc
  · next hk =>
    refine ((s.entries after).mono ?_).map
    rintro entries _ feed ⟨⟨body, closing, rfl, hc, h⟩, _⟩
    exact Expr.writtenOperand_of_forall fun _ => .hash _ closing hk h hc
  · exact reads_fail _
  · exact reads_fail _
  · exact reads_fail _

theorem Sound.climb_succ (s : Sound depth) (level : Level) (left : Expr) :
    (Grammar.climb (depth + 1) level left).Reads cursor fun e tokens feed =>
      ∀ rank before, left.Written rank before → level.floor ≤ rank → cursor.feed.binding ≤ rank →
        e.Written level.floor (before ++ tokens) ∧ feed.binding ≤ level.rank := by
  simp only [Grammar.climb]
  refine Reads.bind_peek ?_
  split
  · next hc =>
    refine reads_pure fun rank before hw hr _ => ?_
    rw [List.append_nil, Feed.binding_of_ofKind?_eq_none hc]
    exact ⟨hw.mono hr, Nat.zero_le _⟩
  · next continuation hc =>
    have hb := Feed.binding_of_ofKind?_eq_some hc
    split
    · next hl =>
      refine Reads.bind_take (fun hk => by rw [hk] at hc; cases hc) fun c1 => ?_
      refine (s.continued left _ continuation c1 hc).bind fun grown c2 => ?_
      refine (s.climb level grown c2).mono ?_
      intro e tokens feed h more hg rank before hw _ hr
      rw [hb] at hr
      obtain ⟨hw, hn⟩ := hg before (hw.mono hr)
      rw [← List.cons_append, ← List.append_assoc]
      exact h _ _ hw (Level.floor_le_of_lt hl) hn
    · next hl =>
      refine reads_pure fun rank before hw hr _ => ?_
      rw [List.append_nil, hb]
      exact ⟨hw.mono hr, Nat.not_lt.mp hl⟩

theorem Sound.continued_succ (s : Sound depth) (left : Expr) (token : Token)
    (continuation : Continuation) (hc : Continuation.ofKind? token.kind = some continuation) :
    (Grammar.continued (depth + 1) left token.line continuation).Reads cursor fun e tokens feed =>
      ∀ before, left.Written continuation.level.rank before →
        e.Written continuation.level.rank (before ++ token :: tokens) ∧
          feed.binding ≤ continuation.level.rank := by
  cases continuation with
  | operator op =>
    simp only [Grammar.continued]
    refine ((s.expression op.level cursor).mono ?_).map
    rintro right tokens feed ⟨hr, hb⟩ before hl
    rw [op.floor_level] at hr
    exact ⟨.binary token op (Nat.le_refl _) hl (Continuation.eq_kind_of_ofKind? hc) hr, hb⟩
  | call =>
    simp only [Grammar.continued]
    refine ((s.list .rightParen cursor (by decide)).mono ?_).map
    rintro arguments _ feed ⟨body, closing, rfl, hk, h⟩ before hf
    exact ⟨.call token closing hf (Continuation.eq_leftParen_of_ofKind? hc) h hk, Feed.binding_le_call⟩
  | index =>
    simp only [Grammar.continued]
    refine (s.whole cursor).bind fun position c1 => ?_
    refine Reads.bind_expect (by decide) fun closing c2 hk => reads_pure ?_
    rintro tokens ⟨h, _⟩ before hf
    exact ⟨.index token closing hf (Continuation.eq_leftBracket_of_ofKind? hc) h hk,
      Feed.binding_le_call⟩

theorem Sound.list_succ (s : Sound depth) {closing : Token.Kind} (hc : closing ≠ .endOfInput) :
    (Grammar.list (depth + 1) closing).Reads cursor fun es tokens _ =>
      closing.Closes Expr.WrittenAll es tokens := by
  simp only [Grammar.list]
  refine Reads.bind_peek ?_
  split
  · next hk =>
    refine Reads.bind_take (by rw [hk]; exact hc) fun _ => reads_pure ?_
    exact ⟨[], _, rfl, hk, .nil⟩
  · refine (s.whole cursor).bind fun first c1 => ?_
    refine ((s.listTail closing c1 hc).mono ?_).map
    rintro others _ _ ⟨body, close, rfl, hk, h⟩ tokens ⟨hw, _⟩
    exact ⟨tokens ++ body, close, (List.append_assoc ..).symm, hk, .cons hw h⟩

theorem Sound.listTail_succ (s : Sound depth) {closing : Token.Kind} (hc : closing ≠ .endOfInput) :
    (Grammar.listTail (depth + 1) closing).Reads cursor fun es tokens _ =>
      closing.Closes Expr.WrittenTail es tokens := by
  simp only [Grammar.listTail]
  refine Reads.bind_peek ?_
  split
  · next hk =>
    refine Reads.bind_take (by rw [hk]; decide) fun c1 => ?_
    refine (s.whole c1).bind fun element c2 => ?_
    refine ((s.listTail closing c2 hc).mono ?_).map
    rintro others _ _ ⟨body, close, rfl, hcl, h⟩ tokens ⟨hw, _⟩
    refine ⟨_ :: (tokens ++ body), close, ?_, hcl, .cons _ hk hw h⟩
    rw [List.cons_append, List.append_assoc]
  · refine Reads.bind_expect hc fun close _ hk => reads_pure ?_
    exact ⟨[], close, rfl, hk, .nil⟩

theorem reads_entrySeparator :
    entrySeparator.Reads cursor fun _ tokens feed =>
      (tokens = [] ∧ feed.head.kind = .rightBrace) ∨
        ∃ comma : Token, comma.kind = .comma ∧ tokens = [comma] := by
  unfold entrySeparator
  refine Reads.bind_peek ?_
  split
  · next hk => exact reads_pure (.inl ⟨rfl, hk⟩)
  · refine ((reads_expect (by decide)).mono ?_).discard
    rintro comma _ _ ⟨hc, rfl⟩
    exact .inr ⟨comma, hc, rfl⟩

theorem Sound.entries_succ (s : Sound depth) :
    (Grammar.entries (depth + 1)).Reads cursor fun entries tokens _ =>
      Token.Kind.rightBrace.Closes Expr.WrittenEntries entries tokens ∧
        (cursor.feed.head.kind = .rightBrace → entries = []) := by
  simp only [Grammar.entries]
  refine Reads.bind_peek ?_
  split
  · next hk =>
    refine Reads.bind_take (by rw [hk]; decide) fun _ => reads_pure ?_
    exact ⟨⟨[], _, rfl, hk, .nil⟩, fun _ => rfl⟩
  · next hn =>
    refine (s.whole cursor).bind fun key c1 => ?_
    refine Reads.bind_expect (by decide) fun colon c2 hc => ?_
    refine (s.whole c2).bind fun value c3 => ?_
    refine reads_entrySeparator.bind fun _ c4 => ?_
    refine ((s.entries c4).mono ?_).map
    rintro entries _ _ ⟨⟨body, close, rfl, hcl, h⟩, he⟩ separator hs after ⟨hv, _⟩ before ⟨hk, _⟩
    refine ⟨?_, fun hh => absurd hh hn⟩
    obtain ⟨rfl, hh⟩ | ⟨comma, hcomma, rfl⟩ := hs
    · obtain rfl := he hh
      cases h
      refine ⟨before ++ colon :: after, close, ?_, hcl, .last colon hk hc hv⟩
      simp only [List.nil_append, List.append_assoc, List.cons_append]
    · refine ⟨before ++ colon :: (after ++ comma :: body), close, ?_, hcl,
        .cons colon comma hk hc hv hcomma h⟩
      simp only [List.nil_append, List.append_assoc, List.cons_append]

theorem Sound.alternative_succ (s : Sound depth) :
    (Grammar.alternative (depth + 1)).Reads cursor fun body? tokens _ =>
      (body? = none ∧ tokens = []) ∨ ∃ word body others, body? = some body ∧ tokens = word :: others ∧
        word.kind = .elseWord ∧ body.Written others := by
  simp only [Grammar.alternative]
  refine Reads.bind_peek ?_
  split
  · next hk =>
    refine Reads.bind_take (by rw [hk]; decide) fun c1 => ((s.block c1).mono ?_).map
    intro body tokens _ h
    exact .inr ⟨_, body, tokens, rfl, rfl, hk, h⟩
  · exact reads_pure (.inl ⟨rfl, rfl⟩)

theorem Sound.block_succ (s : Sound depth) :
    (Grammar.block (depth + 1)).Reads cursor fun body tokens _ => body.Written tokens := by
  simp only [Grammar.block]
  refine Reads.bind_expect (by decide) fun opening c1 ho => ((s.statements c1).mono ?_).map
  rintro statements _ _ ⟨body, closing, rfl, hc, h⟩
  exact .mk opening closing ho h hc

/-- The statement that an attempt reads stands before the ones that are read after it. -/
theorem Sound.reads_attempt_bind (s : Sound depth) {rest : Rule (List Statement)}
    {written : List Statement → List Token → Feed → Prop}
    (hr : ∀ after, rest.Reads after fun ss others feed =>
      ∀ first tokens, Statement.WrittenEnded first tokens after.feed →
        after.feed.tokens = others ++ feed.tokens → written (first :: ss) (tokens ++ others) feed) :
    (attempt (Grammar.statement depth) >>= fun first => rest >>= fun others =>
      (return first.toList ++ others : Rule (List Statement))).Reads cursor written := by
  refine (reads_attempt (s.statement cursor)).bind fun first? c1 => ?_
  refine ((hr c1).with_tokens.mono ?_).map
  rintro others tokens feed ⟨h, ht⟩ before ⟨first, rfl, hf⟩
  exact h first before hf ht

theorem Sound.statements_succ (s : Sound depth) :
    (Grammar.statements (depth + 1)).Reads cursor fun ss tokens _ =>
      Token.Kind.rightBrace.Closes Statement.WrittenAll ss tokens := by
  simp only [Grammar.statements]
  refine Reads.bind_peek ?_
  split
  · next hk =>
    refine Reads.bind_take (by rw [hk]; decide) fun _ => reads_pure ?_
    exact ⟨[], _, rfl, hk, .nil⟩
  split
  · next hk =>
    show Reads (Rule.bind take _) cursor _
    unfold Reads Rule.bind take
    exact List.cons_ne_nil _ _
  · refine s.reads_attempt_bind fun after => (s.statements after).mono ?_
    rintro ss _ feed ⟨body, close, rfl, hk, h⟩ first tokens hf ht
    refine ⟨tokens ++ body, close, (List.append_assoc ..).symm, hk, hf.cons ?_ h⟩
    rw [List.append_assoc] at ht
    exact Feed.head_eq_of_mem_head? ht

/-- A value and the semicolon that may end its statement. -/
theorem Sound.reads_ended (s : Sound depth) (cursor : Cursor) (f : Expr → Statement) :
    (Grammar.expression depth .lowest >>= fun value => skipSemicolon >>= fun _ =>
      (return f value : Rule Statement)).Reads cursor fun statement tokens feed =>
        ∃ value body, statement = f value ∧ value.Written 0 body ∧
          ((tokens = body ∧ feed.head.kind ≠ .semicolon ∧
              Continuation.ofKind? feed.head.kind = none) ∨
            ∃ semicolon : Token, semicolon.kind = .semicolon ∧ tokens = body ++ [semicolon]) := by
  refine (s.whole cursor).bind fun value c1 => (reads_skipSemicolon.mono ?_).map
  rintro _ more feed h body ⟨hw, hc⟩
  refine ⟨value, body, rfl, hw, ?_⟩
  obtain ⟨rfl, rfl, hn⟩ | ⟨semicolon, hk, rfl⟩ := h
  · exact .inl ⟨List.append_nil body, hn, hc⟩
  · exact .inr ⟨semicolon, hk, rfl⟩

theorem Sound.statement_succ (s : Sound depth) :
    (Grammar.statement (depth + 1)).Reads cursor Statement.WrittenEnded := by
  simp only [Grammar.statement]
  refine Reads.bind_peek ?_
  split
  · next hk =>
    refine Reads.bind_take (by rw [hk]; decide) fun c1 => ?_
    refine Reads.bind_expect (by decide) fun name c2 hn => ?_
    refine Reads.bind_expect (by decide) fun sign c3 hs => ?_
    refine (s.reads_ended c3 (Statement.bind (identAt name) · cursor.feed.head.line)).mono ?_
    rintro _ tokens feed ⟨value, body, rfl, hw, h⟩
    exact Statement.writtenEnded_append [cursor.feed.head, name, sign] (.bind _ name sign hk hn hs hw) h
  · next hk =>
    refine Reads.bind_take (by rw [hk]; decide) fun c1 => ?_
    refine Reads.bind_peek ?_
    split
    · next he =>
      refine (reads_skipSemicolon.mono ?_).map
      rintro _ more feed h
      refine Statement.writtenEnded_append [cursor.feed.head] (.leaveBare _ hk) ?_
      obtain ⟨rfl, rfl, hn⟩ | ⟨semicolon, hsemi, rfl⟩ := h
      · simp only [endsBareReturn, Bool.or_eq_true, beq_iff_eq] at he
        obtain (he | he) | he := he
        · exact absurd he hn
        · exact .inl ⟨rfl, .inl he⟩
        · exact .inl ⟨rfl, .inr he⟩
      · exact .inr ⟨semicolon, hsemi, rfl⟩
    · refine (s.reads_ended c1 fun value => .leave (some value) cursor.feed.head.line).mono ?_
      rintro _ tokens feed ⟨value, body, rfl, hw, h⟩
      exact Statement.writtenEnded_append [cursor.feed.head] (.leave _ hk hw) h
  · refine ((s.reads_ended cursor fun value => .expression value cursor.feed.head.line).with_tokens.mono ?_)
    rintro _ tokens feed ⟨⟨value, body, rfl, hw, h⟩, ht⟩
    obtain ⟨first, others, rfl, _⟩ := hw.exists_cons
    have hf : cursor.feed.head = first := by
      obtain ⟨rfl, _⟩ | ⟨_, _, rfl⟩ := h <;> exact Feed.head_eq_of_mem_head? ht first rfl
    rw [hf]
    exact Statement.writtenEnded_append [] (.expression first hw) h

/-- Every rule is sound within every bound. -/
theorem sound (depth : Nat) : Sound depth := by
  induction depth with
  | zero => constructor <;> intros <;> trivial
  | succ depth s =>
    exact {
      expression := fun level _ => s.expression_succ level
      operand := fun _ => s.operand_succ
      climb := fun level left _ => s.climb_succ level left
      continued := fun left token continuation _ hc => s.continued_succ left token continuation hc
      list := fun _ _ hc => s.list_succ hc
      listTail := fun _ _ hc => s.listTail_succ hc
      entries := fun _ => s.entries_succ
      alternative := fun _ => s.alternative_succ
      block := fun _ => s.block_succ
      statements := fun _ => s.statements_succ
      statement := fun _ => s.statement_succ }

theorem reads_program : ∀ (depth : Nat) (cursor : Cursor),
    (program depth).Reads cursor fun ss tokens feed =>
      Statement.WrittenAll ss tokens ∧ feed.head.kind = .endOfInput
  | 0, _ => trivial
  | depth + 1, cursor => by
    unfold program
    refine Reads.bind_peek ?_
    split
    · next hk => exact reads_pure ⟨.nil, hk⟩
    · refine (sound depth).reads_attempt_bind fun after => (reads_program depth after).mono ?_
      rintro ss others feed ⟨h, hk⟩ first tokens hf ht
      exact ⟨hf.cons (Feed.head_eq_of_mem_head? ht) h, hk⟩

end Grammar

/-- **A feed that is read without an error holds a writing of its program**, up to the end of the input. -/
theorem Feed.written_of_errors_eq_nil {feed : Feed} (h : feed.parse.errors = []) :
    ∃ tokens rest, feed.tokens = tokens ++ rest ∧
      Statement.WrittenAll feed.parse.program tokens ∧
        (Feed.mk rest feed.lastLine).head.kind = .endOfInput := by
  obtain ⟨program, next, hp, he⟩ := feed.exists_parse
  have hr := Grammar.reads_program feed.depthBound ⟨feed, []⟩
  unfold Rule.Reads at hr
  rw [hp] at hr
  rw [he] at h ⊢
  obtain ⟨_, tokens, ht, hw, hk⟩ := hr (List.reverse_eq_nil_iff.mp h)
  have hl : (Feed.mk next.feed.tokens feed.lastLine).head.kind = next.feed.head.kind :=
    Feed.head_kind_congr rfl
  exact ⟨tokens, next.feed.tokens, ht, hw, hl.trans hk⟩

end TinyScript
