import TinyScript.Syntax.Parse

/-! # What rules read

`Rule.Reads` says what a rule has to answer for when no error stands recorded after it: none was recorded
before it, and the tokens it took are as promised. A rule that fails has recorded an error, so nothing is
asked of it, and of a rule that comes after it only that it forgets no error. The promise may also speak of
the feed that is left, so that a rule can say where it stops.
-/

namespace TinyScript

namespace Feed

variable {feed : Feed}

/-- A token that closes nothing ahead of it is the first of the tokens left. -/
theorem tokens_eq_head_cons (h : feed.head.kind ≠ .endOfInput) :
    feed.tokens = feed.head :: feed.rest.tokens := by
  cases hf : feed.tokens with
  | nil => exact absurd (by rw [head_eq_atEnd hf]; rfl) h
  | cons token tokens => simp only [head, rest, hf, List.head?_cons, Option.getD_some, List.tail_cons]

/-- Feeds of the same tokens begin alike, but for the line of their ends. -/
theorem head_kind_congr {other : Feed} (h : feed.tokens = other.tokens) :
    feed.head.kind = other.head.kind := by
  unfold head
  rw [h]
  cases other.tokens <;> rfl

end Feed

/-- What a rule answers for when no error stands recorded after it. -/
def Rule.Reads {α : Type} (rule : Rule α) (cursor : Cursor)
    (written : α → List Token → Feed → Prop) : Prop :=
  match rule cursor with
  | .done value next =>
    next.errors = [] → cursor.errors = [] ∧
      ∃ tokens, cursor.feed.tokens = tokens ++ next.feed.tokens ∧ written value tokens next.feed
  | .failed next => next.errors ≠ []
  | .starved => True

namespace Rule

variable {α β : Type} {cursor : Cursor} {written : α → List Token → Feed → Prop}
  {result : β → List Token → Feed → Prop}

theorem Reads.mono {rule : Rule α} {weaker : α → List Token → Feed → Prop}
    (h : rule.Reads cursor written)
    (hw : ∀ value tokens feed, written value tokens feed → weaker value tokens feed) :
    rule.Reads cursor weaker := by
  unfold Reads at h ⊢
  split at h
  · intro he
    obtain ⟨hc, tokens, ht, hv⟩ := h he
    exact ⟨hc, tokens, ht, hw _ _ _ hv⟩
  · exact h
  · exact h

theorem reads_pure {value : α} (h : written value [] cursor.feed) :
    (pure value : Rule α).Reads cursor written :=
  fun he => ⟨he, [], rfl, h⟩

theorem reads_fail (error : SyntaxError) : (fail error : Rule α).Reads cursor written :=
  List.cons_ne_nil _ _

/-- The second rule may count on what the first has read. -/
theorem Reads.bind {rule : Rule α} {next : α → Rule β} (h : rule.Reads cursor written)
    (hn : ∀ value after, (next value).Reads after fun v more feed =>
      ∀ tokens, written value tokens after.feed → result v (tokens ++ more) feed) :
    (rule >>= next).Reads cursor result := by
  show Reads (Rule.bind rule next) cursor result
  unfold Reads Rule.bind at *
  cases hr : rule cursor with
  | failed after => rw [hr] at h; exact h
  | starved => trivial
  | done value after =>
    rw [hr] at h
    have hn := hn value after
    cases hv : next value after with
    | failed last => rw [hv] at hn; simpa only [hv] using hn
    | starved => simp only [hv]
    | done v last =>
      rw [hv] at hn
      simp only [hv]
      intro he
      obtain ⟨ha, more, hm, hw⟩ := hn he
      obtain ⟨hc, tokens, ht, hf⟩ := h ha
      exact ⟨hc, tokens ++ more, by rw [ht, hm, List.append_assoc], hw tokens hf⟩

/-- A rule whose result is only put together differently. -/
theorem Reads.map {rule : Rule α} {f : α → β}
    (h : rule.Reads cursor fun value tokens feed => result (f value) tokens feed) :
    (rule >>= fun value => pure (f value)).Reads cursor result := by
  refine h.bind fun value after => reads_pure fun tokens hw => ?_
  rw [List.append_nil]
  exact hw

theorem Reads.discard {rule : Rule α} {result : Unit → List Token → Feed → Prop}
    (h : rule.Reads cursor fun _ tokens feed => result () tokens feed) :
    (Functor.discard rule).Reads cursor result :=
  h.map

theorem Reads.bind_peek {next : Token → Rule β} (h : (next cursor.feed.head).Reads cursor result) :
    (peek >>= next).Reads cursor result := h

theorem reads_take (hk : cursor.feed.head.kind ≠ .endOfInput) :
    take.Reads cursor fun token tokens _ => token = cursor.feed.head ∧ tokens = [token] :=
  fun he => ⟨he, [cursor.feed.head], Feed.tokens_eq_head_cons hk, rfl, rfl⟩

theorem Reads.bind_take {next : Token → Rule β} (hk : cursor.feed.head.kind ≠ .endOfInput)
    (h : ∀ after, (next cursor.feed.head).Reads after fun v more feed =>
      result v (cursor.feed.head :: more) feed) :
    (take >>= next).Reads cursor result := by
  show Reads (Rule.bind take next) cursor result
  have hn := h ⟨cursor.feed.rest, cursor.errors⟩
  unfold Reads at hn ⊢
  show match next cursor.feed.head ⟨cursor.feed.rest, cursor.errors⟩ with
    | .done value last => _ | .failed last => _ | .starved => _
  split at hn
  · intro he
    obtain ⟨hc, more, hm, hw⟩ := hn he
    exact ⟨hc, cursor.feed.head :: more, by rw [Feed.tokens_eq_head_cons hk, hm, List.cons_append], hw⟩
  · exact hn
  · exact hn

/-- A required token is the next one, and is taken. -/
theorem expect_eq_take {kind : Token.Kind} (h : cursor.feed.head.kind = kind) :
    expect kind cursor = take cursor := by
  show (if cursor.feed.head.kind = kind then take else fail _) cursor = _
  rw [if_pos h]

/-- Any other token is an error. -/
theorem expect_eq_failed {kind : Token.Kind} (h : cursor.feed.head.kind ≠ kind) :
    ∃ error, expect kind cursor = .failed ⟨cursor.feed, error :: cursor.errors⟩ := by
  refine ⟨.unexpected kind cursor.feed.head.kind cursor.feed.head.line, ?_⟩
  show (if cursor.feed.head.kind = kind then take else fail _) cursor = _
  rw [if_neg h]
  rfl

theorem reads_expect {kind : Token.Kind} (hk : kind ≠ .endOfInput) :
    (expect kind).Reads cursor fun token tokens _ => token.kind = kind ∧ tokens = [token] := by
  unfold expect
  refine Reads.bind_peek ?_
  split
  · next h =>
    refine (reads_take (by rw [h]; exact hk)).mono ?_
    rintro token tokens _ ⟨rfl, ht⟩
    exact ⟨h, ht⟩
  · exact reads_fail _

theorem Reads.bind_expect {kind : Token.Kind} {next : Token → Rule β} (hk : kind ≠ .endOfInput)
    (h : ∀ token after, token.kind = kind →
      (next token).Reads after fun v more feed => result v (token :: more) feed) :
    (expect kind >>= next).Reads cursor result := by
  by_cases hh : cursor.feed.head.kind = kind
  · have ht : (take >>= next).Reads cursor result :=
      Reads.bind_take (by rw [hh]; exact hk) fun after => h _ after hh
    show Reads (Rule.bind (expect kind) next) cursor result
    unfold Reads Rule.bind
    rw [expect_eq_take hh]
    exact ht
  · obtain ⟨error, he⟩ := expect_eq_failed hh
    show Reads (Rule.bind (expect kind) next) cursor result
    unfold Reads Rule.bind
    rw [he]
    exact List.cons_ne_nil _ _

theorem reads_skipSemicolon :
    skipSemicolon.Reads cursor fun _ tokens feed =>
      (tokens = [] ∧ feed = cursor.feed ∧ feed.head.kind ≠ .semicolon) ∨
        ∃ semicolon : Token, semicolon.kind = .semicolon ∧ tokens = [semicolon] := by
  unfold skipSemicolon
  refine Reads.bind_peek ?_
  split
  · next hk =>
    refine ((reads_take (by rw [hk]; decide)).mono ?_).discard
    rintro token tokens _ ⟨rfl, rfl⟩
    exact .inr ⟨_, hk, rfl⟩
  · next hk => exact reads_pure (.inl ⟨rfl, rfl, hk⟩)

/-- An attempt that fails has recorded an error. -/
theorem reads_attempt {rule : Rule α} (h : rule.Reads cursor written) :
    rule.attempt.Reads cursor fun value? tokens feed =>
      ∃ value, value? = some value ∧ written value tokens feed := by
  unfold Reads attempt at *
  cases hr : rule cursor with
  | done value after =>
    rw [hr] at h
    intro he
    obtain ⟨hc, tokens, ht, hw⟩ := h he
    exact ⟨hc, tokens, ht, value, rfl, hw⟩
  | failed after => rw [hr] at h; exact fun he => absurd he h
  | starved => trivial

/-- The tokens taken are those that are no longer there. -/
theorem Reads.with_tokens {rule : Rule α} (h : rule.Reads cursor written) :
    rule.Reads cursor fun value tokens feed =>
      written value tokens feed ∧ cursor.feed.tokens = tokens ++ feed.tokens := by
  unfold Reads at h ⊢
  split at h
  · intro he
    obtain ⟨hc, tokens, ht, hw⟩ := h he
    exact ⟨hc, tokens, ht, hw, ht⟩
  · exact h
  · exact h

end Rule

end TinyScript
