import TinyScript.Proofs.Blame.Sources
import TinyScript.Proofs.Layout.Reading
import TinyScript.Proofs.Syntax.Tracking

/-! # Errors in the order of the text

A rule fails at the next token, and whatever is read after that is read from there on. So what is on record at a cursor
was recorded at tokens before the next one or at that one itself, and **where the lines of tokens never decrease, those
of errors never do** (`Feed.errors_ascend`).

Lines alone do not tell tokens apart, but they can be made to. Reading commutes with any change of lines, so a feed
is read as it would be with the places of its tokens for their lines (`Feed.parse_numbered`). There an error has the
place of the token that it is recorded against for its line, and **no error is recorded against a token that stands
before that of an earlier error** (`Feed.blamesInOrder`).
-/

namespace TinyScript

/-! ## What holds along a course -/

/-- What is kept by each token taken and by each failure is kept by every course. -/
theorem Course.keeps {P : Cursor → Prop} {cursor last : Cursor} {attempts : List Attempt} {kept : Bool}
    (advance : ∀ {cursor}, P cursor → P cursor.advance)
    (refuse : ∀ {cursor} refusal, P cursor → P (cursor.refuse refusal))
    (h : Course cursor attempts kept last) (hc : P cursor) : P last := by
  induction h with
  | nothing => exact hc
  | take _ _ ih => exact ih (advance hc)
  | refuse => exact refuse .operand hc
  | @require _ kind => exact refuse (.require kind) hc
  | unclosed hk =>
    rw [← hk]
    exact refuse .unclosed hc
  | attempt _ _ _ _ _ _ inner rest => exact rest (inner hc)

theorem Refusal.line_error (refusal : Refusal) (token : Token) : (refusal.error token).line = token.line := by
  cases refusal with
  | operand => exact Token.line_refusal token
  | require kind => rfl
  | unclosed => rfl

theorem Refusal.error_relined (f : Nat → Nat) (refusal : Refusal) (token : Token) :
    refusal.error (token.relined f) = (refusal.error token).relined f := by
  cases refusal with
  | operand =>
    obtain ⟨kind, literal, line⟩ := token
    show Token.refusal _ = (Token.refusal _).relined f
    cases kind with
    | number =>
      unfold Token.refusal Token.mistake? Token.relined
      dsimp only
      split <;> rfl
    | _ => rfl
  | require kind => rfl
  | unclosed => rfl

/-! ## Lines -/

namespace Feed

variable {feed : Feed}

/-- What a feed hands out: its tokens, closed by one end of the input. -/
def handed (feed : Feed) : List Token := feed.tokens ++ [feed.atEnd]

theorem head_mem_handed (feed : Feed) : feed.head ∈ feed.handed := by
  obtain ⟨tokens, lastLine⟩ := feed
  cases tokens <;> exact List.mem_cons_self

theorem mem_handed_of_rest {token : Token} (h : token ∈ feed.rest.handed) : token ∈ feed.handed := by
  obtain ⟨tokens, lastLine⟩ := feed
  cases tokens with
  | nil => exact h
  | cons first tokens => exact List.mem_cons_of_mem first h

/-- The lines of the tokens never decrease. -/
def Ascending (feed : Feed) : Prop := feed.handed.Pairwise fun token later => token.line ≤ later.line

theorem Ascending.rest (h : feed.Ascending) : feed.rest.Ascending := by
  obtain ⟨tokens, lastLine⟩ := feed
  cases tokens with
  | nil => exact h
  | cons token tokens => exact List.Pairwise.of_cons h

theorem Ascending.head_le (h : feed.Ascending) : feed.head.line ≤ feed.rest.head.line := by
  obtain ⟨tokens, lastLine⟩ := feed
  cases tokens with
  | nil => exact Nat.le_refl _
  | cons token tokens => exact (List.pairwise_cons.mp h).1 _ (head_mem_handed _)

end Feed

/-- The lines of the tokens to come never decrease, those of the errors on record, which are the latest first, never
did, and no error is on a line behind that of the next token. -/
structure Cursor.InOrder (cursor : Cursor) : Prop where
  ascending : cursor.feed.Ascending
  errors : cursor.errors.Pairwise fun error earlier => earlier.line ≤ error.line
  passed : ∀ error ∈ cursor.errors, error.line ≤ cursor.feed.head.line

namespace Cursor.InOrder

variable {cursor : Cursor}

theorem advance (h : cursor.InOrder) : cursor.advance.InOrder where
  ascending := h.ascending.rest
  errors := h.errors
  passed := fun error he => Nat.le_trans (h.passed error he) h.ascending.head_le

theorem refuse (h : cursor.InOrder) (refusal : Refusal) : (cursor.refuse refusal).InOrder := by
  have he := refusal.line_error cursor.feed.head
  have hp : (refusal.error cursor.feed.head :: cursor.errors).Pairwise
      fun error earlier => earlier.line ≤ error.line :=
    List.pairwise_cons.mpr ⟨fun earlier hm => he ▸ h.passed earlier hm, h.errors⟩
  cases refusal with
  | require kind => exact ⟨h.ascending, hp, List.forall_mem_cons.mpr ⟨Nat.le_of_eq he, h.passed⟩⟩
  | operand | unclosed =>
    exact ⟨h.ascending.rest, hp,
      List.forall_mem_cons.mpr ⟨he ▸ h.ascending.head_le, h.advance.passed⟩⟩

end Cursor.InOrder

/-- **Where the lines of tokens never decrease, the lines of errors never do.** -/
theorem Feed.errors_ascend {feed : Feed} (h : feed.Ascending) :
    feed.parse.errors.Pairwise fun error later => error.line ≤ later.line := by
  obtain ⟨next, -, he, -, hc, -, -⟩ := feed.exists_course
  have start : (Cursor.mk feed []).InOrder := ⟨h, .nil, List.forall_mem_nil _⟩
  have hn := hc.keeps (P := Cursor.InOrder) (·.advance) (fun refusal h => h.refuse refusal) start
  rw [he, List.pairwise_reverse]
  exact hn.errors

/-! ## Places -/

/-- A cursor whose errors are recorded against some tokens, and that has no others to come. -/
structure Cursor.Within (tokens : List Token) (cursor : Cursor) : Prop where
  handed : ∀ token ∈ cursor.feed.handed, token ∈ tokens
  errors : ∀ error ∈ cursor.errors, ∃ token ∈ tokens, ∃ refusal : Refusal, error = refusal.error token

namespace Cursor.Within

variable {tokens : List Token} {cursor : Cursor}

theorem advance (h : cursor.Within tokens) : cursor.advance.Within tokens where
  handed := fun token hm => h.handed token (Feed.mem_handed_of_rest hm)
  errors := h.errors

theorem refuse (h : cursor.Within tokens) (refusal : Refusal) : (cursor.refuse refusal).Within tokens := by
  have he : ∀ error ∈ refusal.error cursor.feed.head :: cursor.errors,
      ∃ token ∈ tokens, ∃ refusal : Refusal, error = refusal.error token :=
    List.forall_mem_cons.mpr ⟨⟨_, h.handed _ cursor.feed.head_mem_handed, refusal, rfl⟩, h.errors⟩
  cases refusal with
  | require kind => exact ⟨h.handed, he⟩
  | operand | unclosed => exact ⟨h.advance.handed, he⟩

end Cursor.Within

namespace Feed

/-- Every error is recorded against a token that was handed out. -/
theorem exists_refusal (feed : Feed) : ∀ error ∈ feed.parse.errors,
    ∃ token ∈ feed.handed, ∃ refusal : Refusal, error = refusal.error token := by
  obtain ⟨next, -, he, -, hc, -, -⟩ := feed.exists_course
  have start : (Cursor.mk feed []).Within feed.handed := ⟨fun _ hm => hm, List.forall_mem_nil _⟩
  have hn := hc.keeps (P := Cursor.Within feed.handed) (·.advance) (fun refusal h => h.refuse refusal) start
  intro error hm
  rw [he, List.mem_reverse] at hm
  exact hn.errors error hm

/-- The token at a place of a feed. The place behind the last token is that of the end of the input. -/
def token (feed : Feed) (place : Nat) : Token := feed.tokens[place]?.getD feed.atEnd

/-- A feed with the places of its tokens for their lines. -/
def numbered (feed : Feed) : Feed :=
  ⟨feed.tokens.mapIdx fun place token => ⟨token.kind, token.literal, place⟩, feed.tokens.length⟩

/-- The places of the tokens that the errors of a feed are recorded against. -/
def blamed (feed : Feed) : List Nat := feed.numbered.parse.errors.map SyntaxError.line

theorem handed_numbered (feed : Feed) :
    feed.numbered.handed = feed.handed.mapIdx fun place token => ⟨token.kind, token.literal, place⟩ := by
  unfold handed
  rw [List.mapIdx_concat]
  rfl

theorem ascending_numbered (feed : Feed) : feed.numbered.Ascending := by
  unfold Ascending
  rw [handed_numbered, List.pairwise_iff_getElem]
  intro place later _ _ hlt
  rw [List.getElem_mapIdx, List.getElem_mapIdx]
  exact Nat.le_of_lt hlt

theorem getElem?_handed {feed : Feed} {place : Nat} {token : Token} (h : feed.handed[place]? = some token) :
    token = feed.token place ∧ place ≤ feed.tokens.length := by
  unfold handed at h
  unfold Feed.token
  rw [List.getElem?_append] at h
  split at h
  · next hl => exact ⟨by rw [h]; rfl, Nat.le_of_lt hl⟩
  · next hl =>
    have hp : place - feed.tokens.length = 0 := by
      have := (List.getElem?_eq_some_iff.mp h).1
      simpa using this
    rw [hp] at h
    cases h
    exact ⟨by rw [List.getElem?_eq_none (Nat.le_of_not_lt hl)]; rfl, Nat.le_of_sub_eq_zero hp⟩

/-- A token with its place for its line tells which token it is. -/
theorem mem_handed_numbered {feed : Feed} {token : Token} (h : token ∈ feed.numbered.handed) :
    token.relined (fun place => (feed.token place).line) = feed.token token.line ∧
      token.line ≤ feed.tokens.length := by
  rw [handed_numbered] at h
  obtain ⟨place, hp, rfl⟩ := List.mem_mapIdx.mp h
  obtain ⟨ht, hl⟩ := getElem?_handed (List.getElem?_eq_getElem hp)
  rw [ht]
  exact ⟨rfl, hl⟩

theorem relined_numbered (feed : Feed) :
    feed.numbered.relined (fun place => (feed.token place).line) = feed := by
  have ht : feed.numbered.tokens.map (Token.relined fun place => (feed.token place).line) = feed.tokens := by
    refine List.ext_getElem (by simp [numbered]) fun place _ hp => ?_
    have hl : feed.token place = feed.tokens[place] := by
      unfold Feed.token
      rw [List.getElem?_eq_getElem hp]
      rfl
    simp [numbered, Token.relined, hl]
  have hl : (feed.token feed.tokens.length).line = feed.lastLine := by
    unfold Feed.token
    rw [List.getElem?_eq_none (Nat.le_refl _)]
    rfl
  show Feed.mk _ (feed.token feed.tokens.length).line = feed
  rw [ht, hl]

/-- **A feed is read as it is with the places of its tokens for their lines.** -/
theorem parse_numbered (feed : Feed) :
    feed.parse = feed.numbered.parse.relined fun place => (feed.token place).line := by
  rw [← parse_relined, relined_numbered]

/-- The errors of a feed are recorded against its tokens, or the end of the input behind them, and none of them against
a token that stands before that of an earlier error. -/
structure BlamesInOrder (feed : Feed) : Prop where
  against : List.Forall₂ (fun error place => ∃ refusal : Refusal, error = refusal.error (feed.token place))
    feed.parse.errors feed.blamed
  ascending : feed.blamed.Pairwise (· ≤ ·)
  le_length : ∀ place ∈ feed.blamed, place ≤ feed.tokens.length

/-- **No error is recorded against a token that stands before that of an earlier error.** -/
theorem blamesInOrder (feed : Feed) : feed.BlamesInOrder where
  against := by
    have he : feed.parse.errors =
        feed.numbered.parse.errors.map (SyntaxError.relined fun place => (feed.token place).line) := by
      rw [parse_numbered]
      rfl
    rw [he]
    unfold blamed
    rw [List.forall₂_map_left_iff, List.forall₂_map_right_iff, List.forall₂_same]
    intro error hm
    obtain ⟨token, ht, refusal, rfl⟩ := feed.numbered.exists_refusal error hm
    refine ⟨refusal, ?_⟩
    rw [← refusal.error_relined, (mem_handed_numbered ht).1, refusal.line_error]
  ascending := List.pairwise_map.mpr (errors_ascend feed.ascending_numbered)
  le_length := by
    intro place hm
    obtain ⟨error, he, rfl⟩ := List.mem_map.mp hm
    obtain ⟨token, ht, refusal, rfl⟩ := feed.numbered.exists_refusal error he
    rw [refusal.line_error]
    exact (mem_handed_numbered ht).2

/-- The end of a list of tokens is on the line of the last of them. -/
theorem ascending_ofTokens {tokens : List Token} (h : tokens.Pairwise fun token later => token.line ≤ later.line) :
    (ofTokens tokens).Ascending := by
  obtain rfl | ⟨before, last, rfl⟩ := tokens.eq_nil_or_concat'
  · exact List.pairwise_singleton _ _
  · have hl : (ofTokens (before ++ [last])).atEnd = Token.atEnd last.line := by
      simp only [ofTokens, atEnd, List.getLast?_concat, Option.map_some, Option.getD_some]
    obtain ⟨-, -, hb⟩ := List.pairwise_append.mp h
    refine List.pairwise_append.mpr ⟨h, List.pairwise_singleton _ _, fun token hm later he => ?_⟩
    rw [List.mem_singleton.mp he, hl]
    obtain hm | hm := List.mem_append.mp hm
    · exact hb token hm last (List.mem_singleton_self last)
    · obtain rfl := List.mem_singleton.mp hm
      exact Nat.le_refl _

/-- The lines of a text go up. -/
theorem ascending_ofSource (source : String) : (ofSource source).Ascending := by
  show (Token.scan source).Pairwise _
  rw [List.pairwise_iff_getElem]
  intro first later hf hl hlt
  rw [Scanner.token_of_scan (List.getElem?_eq_getElem hf), Scanner.token_of_scan (List.getElem?_eq_getElem hl)]
  exact Scanner.line_token_le _ (Nat.le_of_lt hlt)

/-- **Syntax errors come in the order of the text**: on lines that never decrease, as the lines of the tokens never do,
and against tokens none of which stands before that of an earlier error. -/
theorem errors_in_order :
    (∀ tokens : List Token, (tokens.Pairwise fun token later => token.line ≤ later.line) →
      ((ofTokens tokens).parse.errors.Pairwise fun error later => error.line ≤ later.line) ∧
        (ofTokens tokens).BlamesInOrder) ∧
    ∀ source : String, ((Parse.ofSource source).errors.Pairwise fun error later => error.line ≤ later.line) ∧
      (ofSource source).BlamesInOrder :=
  ⟨fun _ h => ⟨errors_ascend (ascending_ofTokens h), blamesInOrder _⟩,
    fun source => ⟨errors_ascend (ascending_ofSource source), blamesInOrder _⟩⟩

/-- Two errors may be recorded against one token: one that is not what is required next, and that begins no
expression. -/
theorem errors_in_order_twice :
    let tokens : List Token := [⟨.letWord, "let", 1⟩, ⟨.letWord, "let", 1⟩, ⟨.identifier, "x", 2⟩,
      ⟨.illegal, "@", 2⟩, ⟨.endOfInput, "", 3⟩]
    let feed := ofTokens tokens
    (tokens.Pairwise fun token later => token.line ≤ later.line) ∧
      ((feed.parse.errors.Pairwise fun error later => error.line ≤ later.line) ∧ feed.BlamesInOrder) ∧
      feed.blamed = [1, 3, 3] ∧ feed.parse.errors = [.unexpected .identifier .letWord 1,
        .unexpected .assign .illegal 2, .illegalToken "@" 2] := by
  intro tokens feed
  have h : tokens.Pairwise fun token later => token.line ≤ later.line := by decide
  exact ⟨h, errors_in_order.1 tokens h, by decide +kernel, by decide +kernel⟩

end Feed

end TinyScript
