import TinyScript.Proofs.Layout.Relining
import TinyScript.Proofs.Syntax.Tracking
import TinyScript.Proofs.Token.Lines

/-! # Tokens on demand and tokens replayed

A text may be scanned while it is read, or first be scanned to its end (`Scanner.tokenize`) and its tokens be read
after that. The two sources of tokens end in their own ways: a scanner ends on the line it has counted up to, a list
of tokens on the line of its last token. Up to then they hand out the same tokens, and what is read off one is read
off the other, but for the lines of errors against the end of the input (`Feed.Replays.parse_eq`). **A list of all the
tokens of a text is read as the text is; without the last of them, only those lines differ**
(`Parse.ofSource_replayed`).
-/

namespace TinyScript

/-! ## The end of the input on another line -/

/-- An end of the input on another line; any other token as it is. -/
def Token.relinedEnd (f : Nat → Nat) (token : Token) : Token :=
  if token.kind = .endOfInput then token.relined f else token

/-- Whether an error is recorded against the end of the input. -/
def SyntaxError.blamesEnd : SyntaxError → Bool
  | .unexpected _ found _ => found == .endOfInput
  | .noOperand found _ => found == .endOfInput
  | _ => false

/-- An error against the end of the input on another line; any other error as it is. -/
def SyntaxError.relinedEnd (f : Nat → Nat) (error : SyntaxError) : SyntaxError :=
  if error.blamesEnd then error.relined f else error

theorem Token.alike_relinedEnd (f : Nat → Nat) (token : Token) : token.Alike (token.relinedEnd f) := by
  unfold relinedEnd
  split
  · next hk => exact ⟨rfl, fun h => absurd hk h⟩
  · exact .refl token

theorem Token.refusal_of_endOfInput {token : Token} (hk : token.kind = .endOfInput) :
    token.refusal = .noOperand .endOfInput token.line := by
  unfold refusal
  rw [mistake?_eq_none hk rfl, hk]
  rfl

namespace Refusal

variable {token : Token}

/-- A failure is recorded against the token that it is met at. -/
theorem blamesEnd_error (refusal : Refusal) : (refusal.error token).blamesEnd = (token.kind == .endOfInput) := by
  cases refusal with
  | operand =>
    obtain ⟨kind, literal, line⟩ := token
    cases kind with
    | number =>
      show (Token.refusal _).blamesEnd = false
      unfold Token.refusal Token.mistake?
      dsimp only
      split <;> rfl
    | _ => rfl
  | require kind => rfl
  | unclosed => rfl

theorem error_relinedEnd (refusal : Refusal) (f : Nat → Nat) :
    refusal.error (token.relinedEnd f) = (refusal.error token).relinedEnd f := by
  unfold Token.relinedEnd SyntaxError.relinedEnd
  rw [blamesEnd_error]
  by_cases hk : token.kind = .endOfInput
  · rw [if_pos hk, if_pos (beq_iff_eq.mpr hk)]
    cases refusal with
    | operand =>
      have hr : (token.relined f).kind = .endOfInput := hk
      show (token.relined f).refusal = token.refusal.relined f
      rw [Token.refusal_of_endOfInput hk, Token.refusal_of_endOfInput hr]
      rfl
    | require kind => rfl
    | unclosed => rfl
  · rw [if_neg hk, if_neg (mt beq_iff_eq.mp hk)]

end Refusal

theorem Token.map_relinedEnd_id (tokens : List Token) : tokens.map (relinedEnd id) = tokens :=
  List.map_id'' (fun token => ite_self token) tokens

theorem SyntaxError.relined_id (error : SyntaxError) : error.relined id = error := by
  cases error <;> rfl

theorem SyntaxError.map_relinedEnd_id (errors : List SyntaxError) : errors.map (relinedEnd id) = errors := by
  refine List.map_id'' (fun error => ?_) errors
  unfold relinedEnd
  rw [relined_id, ite_self]

theorem SyntaxError.line_of_relinedEnd_eq {line : Nat} {error : SyntaxError} (hb : error.blamesEnd = true)
    (h : error.relinedEnd (fun _ => line) = error) : error.line = line := by
  unfold relinedEnd at h
  rw [if_pos hb] at h
  rw [← h]
  cases error <;> rfl

/-! ## Feeds that replay each other -/

/-- A feed hands out the tokens of another one, with the ends of the input on other lines. -/
def Feed.Replays (f : Nat → Nat) (feed other : Feed) : Prop :=
  ∀ count, other.take count = (feed.take count).map (Token.relinedEnd f)

namespace Feed.Replays

variable {f : Nat → Nat} {feed other : Feed}

theorem head_eq (h : feed.Replays f other) : other.head = feed.head.relinedEnd f :=
  (List.cons.inj (h 1)).1

theorem rest (h : feed.Replays f other) : feed.rest.Replays f other.rest :=
  fun count => (List.cons.inj (h (count + 1))).2

end Feed.Replays

/-- A cursor of a feed, with its errors, and one of a feed that replays it. -/
def Cursor.Replays (f : Nat → Nat) (cursor : Cursor) (place : Option Cursor) : Prop :=
  ∃ other, place = some other ∧ cursor.feed.Replays f other.feed ∧
    other.errors = cursor.errors.map (SyntaxError.relinedEnd f)

namespace Cursor.Replays

variable {f : Nat → Nat} {cursor other : Cursor}

theorem refuse (hf : cursor.feed.Replays f other.feed)
    (he : other.errors = cursor.errors.map (SyntaxError.relinedEnd f)) (refusal : Refusal) :
    Replays f (cursor.refuse refusal) (some (other.refuse refusal)) := by
  have hr : refusal.error other.feed.head :: other.errors =
      (refusal.error cursor.feed.head :: cursor.errors).map (SyntaxError.relinedEnd f) := by
    rw [hf.head_eq, refusal.error_relinedEnd, he]
    rfl
  cases refusal with
  | require kind => exact ⟨_, rfl, hf, hr⟩
  | operand => exact ⟨_, rfl, hf.rest, hr⟩
  | unclosed => exact ⟨_, rfl, hf.rest, hr⟩

/-- Replaying is kept by all that rules do with tokens. -/
theorem tracking (f : Nat → Nat) : Tracking (Replays f) where
  head := by
    rintro cursor _ ⟨other, ⟨⟩, hf, -⟩
    rw [hf.head_eq]
    exact Token.alike_relinedEnd f _
  take := by
    rintro cursor _ ⟨other, rfl, hf, he⟩ -
    exact ⟨_, rfl, hf.rest, he⟩
  refuse := by
    rintro cursor _ ⟨other, rfl, hf, he⟩ refusal
    exact .inl (refuse hf he refusal)

end Cursor.Replays

/-- **A feed that replays another one is read as the same program**, and only the lines of errors against the end of
the input are other ones. -/
theorem Feed.Replays.parse_eq {f : Nat → Nat} {feed other : Feed} (h : feed.Replays f other) :
    other.parse = ⟨feed.parse.program, feed.parse.errors.map (SyntaxError.relinedEnd f)⟩ := by
  obtain ⟨next, place, ⟨last, rfl, -, he⟩, hn, hl⟩ :=
    Feed.exists_tracked (Cursor.Replays.tracking f) feed other ⟨_, rfl, h, rfl⟩
  rw [hl last rfl, he, hn, List.map_reverse]

/-- Feeds that hand out the same tokens are read alike. -/
theorem Feed.parse_eq_of_take_eq {feed other : Feed} (h : ∀ count, other.take count = feed.take count) :
    other.parse = feed.parse := by
  have hr : feed.Replays id other := fun count => by
    rw [h count, Token.map_relinedEnd_id]
  rw [hr.parse_eq, SyntaxError.map_relinedEnd_id]

/-! ## The tokens of a text -/

/-- Tokens are replayed with any number of ends of the input behind them. -/
theorem Feed.replays_append (f : Nat → Nat) {tokens : List Token} (line : Nat)
    (h : ∀ token ∈ tokens, token.kind ≠ .endOfInput) (copies : Nat) :
    (Feed.mk tokens line).Replays f ⟨tokens ++ List.replicate copies (Token.atEnd (f line)), f line⟩ := by
  intro count
  induction count generalizing tokens copies with
  | zero => rfl
  | succ count ih =>
    cases tokens with
    | nil =>
      have hn := ih (List.forall_mem_nil _) (copies - 1)
      refine congrArg₂ List.cons ?_ ?_
      · cases copies <;> rfl
      · cases copies <;> exact hn
    | cons token tokens =>
      refine congrArg₂ List.cons ?_ (ih (fun other hm => h other (List.mem_cons_of_mem token hm)) copies)
      exact (if_neg (h token List.mem_cons_self)).symm

theorem Feed.replays_lastLine (f : Nat → Nat) {tokens : List Token} (line : Nat)
    (h : ∀ token ∈ tokens, token.kind ≠ .endOfInput) : (Feed.mk tokens line).Replays f ⟨tokens, f line⟩ := by
  have hr := replays_append f line h 0
  rwa [List.replicate_zero, List.append_nil] at hr

/-- Errors against the end of the input are on the line that a feed ends on: such a feed replays itself with the ends of
the input on that line. -/
theorem Feed.line_of_blamesEnd {feed : Feed} (h : ∀ token ∈ feed.tokens, token.kind ≠ .endOfInput)
    {error : SyntaxError} (hm : error ∈ feed.parse.errors) (hb : error.blamesEnd = true) :
    error.line = feed.lastLine := by
  have hr : feed.Replays (fun _ => feed.lastLine) feed := replays_lastLine (fun _ => feed.lastLine) feed.lastLine h
  have he : feed.parse.errors.map id = feed.parse.errors.map (SyntaxError.relinedEnd fun _ => feed.lastLine) :=
    (List.map_id _).trans (congrArg Parse.errors hr.parse_eq)
  exact SyntaxError.line_of_relinedEnd_eq hb (List.map_inj_left.mp he error hm).symm

theorem Scanner.take_feed (scanner : Scanner) (count : Nat) :
    scanner.feed.take count = (List.range count).map scanner.token := by
  induction count generalizing scanner with
  | zero => rfl
  | succ count ih =>
    rw [Feed.take, ← (next_eq scanner).1, ← (next_eq scanner).2, ih, List.range_succ_eq_map, List.map_cons,
      List.map_map]
    rfl

namespace Scanner

/-- Behind a token that is not the end of the input less of the text is left. -/
theorem length_next_lt (scanner : Scanner) (h : scanner.next.1.kind ≠ .endOfInput) :
    scanner.next.2.rest.length < scanner.rest.length := by
  revert h
  fun_induction next scanner with
  | case1 line => exact fun h => absurd rfl h
  | case2 c cs line p after token ht =>
    intro _
    show (cs.drop _).length < cs.length + 1
    rw [List.length_drop]
    omega
  | case3 c cs line p after ht ih =>
    intro h
    refine Nat.lt_of_lt_of_le (ih h) ?_
    show (cs.drop _).length ≤ cs.length + 1
    rw [List.length_drop]
    omega

/-- All tokens up to the end of the input, which is the last of them. -/
def tokenize (scanner : Scanner) : List Token :=
  if scanner.next.1.kind = .endOfInput then [scanner.next.1] else scanner.next.1 :: scanner.next.2.tokenize
termination_by scanner.rest.length
decreasing_by exact scanner.length_next_lt ‹_›

theorem tokenize_eq (scanner : Scanner) (h : ∀ token ∈ scanner.feed.tokens, token.kind ≠ .endOfInput) :
    scanner.tokenize = scanner.feed.tokens ++ [scanner.feed.atEnd] := by
  fun_induction tokenize scanner with
  | case1 scanner hk =>
    rw [(next_eq scanner).1] at hk ⊢
    cases ht : scanner.feed.tokens with
    | nil =>
      rw [Feed.head_eq_atEnd ht]
      rfl
    | cons token tokens =>
      rw [Feed.head, ht] at hk
      exact absurd hk (h token (ht ▸ List.mem_cons_self))
  | case2 scanner hk ih =>
    obtain ⟨hh, hr⟩ := next_eq scanner
    rw [hr] at ih
    rw [hh] at hk ⊢
    rw [ih fun token hm => h token (List.mem_of_mem_tail hm)]
    cases ht : scanner.feed.tokens with
    | nil => exact absurd (congrArg Token.kind (Feed.head_eq_atEnd ht)) hk
    | cons token tokens =>
      rw [Feed.head, Feed.rest, ht]
      rfl

end Scanner

/-- A list of tokens ends on the line of its last token. -/
theorem Feed.ofTokens_concat (tokens : List Token) (last : Token) :
    ofTokens (tokens ++ [last]) = ⟨tokens ++ [last], last.line⟩ := by
  unfold ofTokens
  rw [List.getLast?_concat]
  rfl

/-- **Scanning on demand and replaying agree.** Reading a text is reading the tokens that its scanner hands out one by
one. Its tokens as a list are read alike, however often the end of the input stands at their end; and where it does not
stand there, but for the line of errors against it, which is then that of the last token. -/
theorem Parse.ofSource_replayed (source : String) :
    (∀ count, (Feed.ofSource source).take count = (List.range count).map (Scanner.ofSource source).token) ∧
    (∀ feed : Feed, (∀ count, feed.take count = (List.range count).map (Scanner.ofSource source).token) →
      feed.parse = Parse.ofSource source) ∧
    let tokens := (Scanner.ofSource source).tokenize
    let final := Token.atEnd (1 + source.toList.count '\n')
    tokens.getLast? = some final ∧
    (∀ copies, (Feed.ofTokens (tokens ++ List.replicate copies final)).parse = Parse.ofSource source) ∧
    (Feed.ofTokens tokens.dropLast).parse =
      ⟨(Parse.ofSource source).program, (Parse.ofSource source).errors.map
        (SyntaxError.relinedEnd fun _ => (tokens.dropLast.getLast?.map Token.line).getD 1)⟩ ∧
    ∀ error ∈ (Parse.ofSource source).errors, error.blamesEnd = true → error.line = final.line := by
  refine ⟨(Scanner.ofSource source).take_feed, fun feed hf => ?_, ?_⟩
  · exact Feed.parse_eq_of_take_eq fun count => (hf count).trans ((Scanner.ofSource source).take_feed count).symm
  intro tokens final
  have hs : ∀ token ∈ (Feed.ofSource source).tokens, token.kind ≠ .endOfInput :=
    fun _ hm => (Token.scanned_of_mem_ofSource hm).1
  have ht : tokens = (Feed.ofSource source).tokens ++ [final] := (Scanner.ofSource source).tokenize_eq hs
  refine ⟨?_, fun copies => ?_, ?_, fun error => Feed.line_of_blamesEnd hs⟩
  · rw [ht, List.getLast?_concat]
  · have hf : Feed.ofTokens (tokens ++ List.replicate copies final) =
        ⟨(Feed.ofSource source).tokens ++ List.replicate (copies + 1) final, final.line⟩ := by
      rw [ht, List.append_assoc, List.singleton_append, ← List.replicate_succ, List.replicate_succ',
        ← List.append_assoc, Feed.ofTokens_concat]
    rw [hf]
    refine (Feed.replays_append id final.line hs (copies + 1)).parse_eq.trans ?_
    rw [SyntaxError.map_relinedEnd_id]
    rfl
  · rw [ht, List.dropLast_concat]
    exact (Feed.replays_lastLine (fun _ => _) final.line hs).parse_eq

end TinyScript
