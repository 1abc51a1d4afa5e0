import TinyScript.Proofs.Syntax.Course
import TinyScript.Proofs.Syntax.Exactness
import TinyScript.Session
import TinyScript.Text.Fx

/-! # Tokens that are wrong by themselves

An illegal character, a string that is not closed and a number that is not finite are wrong wherever they stand.
Each of them is reported once, and in the order of the text: where another kind of token is required it is left,
and the statement that begins with it is refused for it; where it is taken, the rule fails because of it.

What carries the proof is what is **conserved along a course** (`Course.mistakes_eq`): the reports of such tokens
so far, followed by the mistakes of the tokens still to be read. At the beginning nothing is reported, and at the
end nothing is left, so **the reports are the mistakes of all tokens** (`Parse.mistakes_ofSource`).
-/

namespace TinyScript

/-- Whether an error blames a token for what it is, and not for where it stands. -/
def SyntaxError.blamesToken : SyntaxError → Bool
  | .invalidNumber .. | .unterminatedString .. | .illegalToken .. => true
  | .unexpected .. | .noOperand .. => false

/-- The error for a token that is wrong by itself blames a token. -/
theorem Token.blamesToken_of_mistake? {token : Token} {error : SyntaxError} (h : token.mistake? = some error) :
    error.blamesToken = true := by
  unfold mistake? at h
  split at h
  · cases h
    rfl
  · cases h
    rfl
  · split at h
    · cases h
    · cases h
      rfl
  · cases h

/-- A refusal blames the token exactly if the token is wrong by itself. -/
theorem Token.filter_refusal (token : Token) :
    [token.refusal].filter SyntaxError.blamesToken = token.mistake?.toList := by
  unfold refusal
  cases h : token.mistake? with
  | none => rfl
  | some error => exact List.filter_cons_of_pos (blamesToken_of_mistake? h)

/-- The mistakes of a feed's tokens are that of the next token and those of the others. -/
theorem Feed.filterMap_mistake? (feed : Feed) :
    feed.tokens.filterMap Token.mistake? =
      feed.head.mistake?.toList ++ feed.rest.tokens.filterMap Token.mistake? := by
  obtain ⟨tokens, lastLine⟩ := feed
  cases tokens with
  | nil => rfl
  | cons token tokens =>
    show (token :: tokens).filterMap Token.mistake? = token.mistake?.toList ++ tokens.filterMap Token.mistake?
    cases h : token.mistake? with
    | none => exact List.filterMap_cons_none h
    | some error => exact List.filterMap_cons_some h

namespace Cursor

/-- The reports of tokens that are wrong by themselves, followed by the mistakes of the tokens that are left. -/
def mistakes (cursor : Cursor) : List SyntaxError :=
  cursor.errors.reverse.filter SyntaxError.blamesToken ++ cursor.feed.tokens.filterMap Token.mistake?

theorem mistakes_advance {cursor : Cursor} (h : cursor.feed.head.mistake? = none) :
    cursor.advance.mistakes = cursor.mistakes := by
  unfold mistakes
  rw [Feed.filterMap_mistake? cursor.feed, h]
  rfl

theorem mistakes_record (cursor : Cursor) {error : SyntaxError} (h : error.blamesToken = false) :
    (cursor.record error).mistakes = cursor.mistakes := by
  unfold mistakes record
  rw [List.reverse_cons, List.filter_append, List.filter_cons_of_neg (by simp [h]), List.filter_nil,
    List.append_nil]

theorem mistakes_refuse (cursor : Cursor) :
    (cursor.advance.record cursor.feed.head.refusal).mistakes = cursor.mistakes := by
  unfold mistakes record advance
  rw [Feed.filterMap_mistake? cursor.feed, List.reverse_cons, List.filter_append, Token.filter_refusal,
    List.append_assoc]

end Cursor

/-- **Reports and mistakes that are left are conserved along a course**: no mistake is passed over, and none is
reported twice. -/
theorem Course.mistakes_eq {cursor last : Cursor} {attempts : List Attempt} {kept : Bool}
    (h : Course cursor attempts kept last) : last.mistakes = cursor.mistakes := by
  induction h with
  | nothing => rfl
  | take ht _ ih => exact ih.trans (Cursor.mistakes_advance ht)
  | refuse => exact Cursor.mistakes_refuse _
  | require => exact Cursor.mistakes_record _ rfl
  | unclosed hk =>
    exact (Cursor.mistakes_record _ rfl).trans (Cursor.mistakes_advance (Token.mistake?_eq_none hk rfl))
  | attempt _ _ _ _ _ _ inner rest => exact rest.trans inner

section

variable [ByteHash]

/-- **Every token of a text that is wrong by itself is reported once, and in order.** The errors that blame tokens
are the mistakes of the tokens of the text, each with the token's line and text. So a text that has such a token
is not run, in any session and within any bound. -/
theorem Parse.mistakes_ofSource (source : String) :
    (Parse.ofSource source).errors.filter SyntaxError.blamesToken =
        (Token.scan source).filterMap Token.mistake? ∧
      ((∃ token ∈ Token.scan source, token.mistake? ≠ none) → ∀ (depth : Nat) (session : Session),
        session.interpret depth source = some (.malformed (Parse.ofSource source).errors, session)) := by
  have reports : (Parse.ofSource source).errors.filter SyntaxError.blamesToken =
      (Token.scan source).filterMap Token.mistake? := by
    obtain ⟨next, _, he, _, hc, _, hk⟩ := (Feed.ofSource source).exists_course
    obtain ⟨taken, ht⟩ := hc.suffix
    have hn : next.feed.tokens = [] := Feed.eq_nil_of_ofSource ht.symm hk
    have hm := hc.mistakes_eq
    unfold Cursor.mistakes at hm
    rw [hn, List.filterMap_nil, List.append_nil] at hm
    show (Feed.ofSource source).parse.errors.filter _ = _
    rw [he, hm]
    show (Feed.ofSource source).tokens.filterMap Token.mistake? =
      ((Feed.ofSource source).tokens ++ [(Feed.ofSource source).atEnd]).filterMap Token.mistake?
    rw [List.filterMap_append]
    exact (List.append_nil _).symm
  refine ⟨reports, fun ⟨token, hm, ht⟩ depth session => ?_⟩
  have he : (Parse.ofSource source).errors ≠ [] := by
    intro he
    rw [he, List.filter_nil] at reports
    exact ht (List.filterMap_eq_nil_iff.mp reports.symm token hm)
  unfold Session.interpret
  dsimp only
  rw [if_neg fun h => he (List.isEmpty_iff.mp h)]

end

/-- Mistakes of every kind, some of them in statements that are skipped because of another one: an unknown character
three times, a number that is too large, and a string that is never closed. -/
theorem Parse.mistakes_ofSource_nested :
    let source := "let = @;\nif (fn() \x7b [#, 9] 4000000000000000000000000000000000000000 \x7d) \x7b #\n\"a"
    let mistakes : List SyntaxError := [.illegalToken "@" 1, .illegalToken "#" 2,
      .invalidNumber "4000000000000000000000000000000000000000" 2, .illegalToken "#" 2, .unterminatedString 3]
    (∃ token ∈ Token.scan source, token.mistake? ≠ none) ∧
      (Token.scan source).filterMap Token.mistake? = mistakes ∧
      (Parse.ofSource source).errors.filter SyntaxError.blamesToken = mistakes ∧
      ∀ (depth : Nat) (session : Session),
        session.interpret depth source = some (.malformed (Parse.ofSource source).errors, session) := by
  intro source mistakes
  have hm : (Token.scan source).filterMap Token.mistake? = mistakes := by decide +kernel
  have he : ∃ token ∈ Token.scan source, token.mistake? ≠ none := by decide +kernel
  have hs := Parse.mistakes_ofSource source
  exact ⟨he, hm, hs.1.trans hm, hs.2 he⟩

end TinyScript
