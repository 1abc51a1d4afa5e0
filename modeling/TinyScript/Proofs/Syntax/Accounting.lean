import TinyScript.Proofs.Syntax.Course
import TinyScript.Proofs.Syntax.Reads

/-! # What attempts account for

Every error belongs to one attempt: an attempt that fails records one error of its own, when all attempts nested
in it have ended, and an attempt that does not fail records none (`Attempt.Accounts`). Every attempt starts before
a token of its own, which is not the end of the input. So **there are as many errors as statements left out**, at
whatever depth, and no more than tokens (`Feed.parse_accounted`).

Both are read off the course of a rule. The second is a matter of how much is left to read: attempts start later
and later, since each takes the token that it starts before.
-/

namespace TinyScript

/-- The errors recorded while an attempt was made, in order: its own, and those of the attempts nested in it. -/
def Attempt.recorded (attempt : Attempt) : List SyntaxError :=
  attempt.stop.errors.reverse.drop attempt.start.errors.length

/-- The errors recorded from one cursor to another are those of some attempts, in order, and then one more exactly
if what was read is not kept. -/
def Cursor.Accounts (start : Cursor) (attempts : List Attempt) (kept : Bool) (stop : Cursor) : Prop :=
  ∃ own : Option SyntaxError, own.isSome = !kept ∧
    stop.errors.reverse = start.errors.reverse ++ (attempts.flatMap Attempt.recorded ++ own.toList)

/-- Of the errors recorded while an attempt was made, one is not of an attempt nested in it if it failed, and none
if it did not. -/
def Attempt.Accounts (attempt : Attempt) : Prop :=
  attempt.start.Accounts attempt.nested attempt.result.isSome attempt.stop

/-- What an attempt recorded is what its end has more than its start. -/
theorem Attempt.recorded_eq {attempt : Attempt} {errors : List SyntaxError}
    (h : attempt.stop.errors.reverse = attempt.start.errors.reverse ++ errors) : attempt.recorded = errors := by
  unfold recorded
  rw [h, ← List.length_reverse, List.drop_left]

namespace Cursor.Accounts

variable {cursor middle last : Cursor} {attempts : List Attempt} {kept : Bool}

theorem nothing : cursor.Accounts [] true cursor :=
  ⟨none, rfl, (List.append_nil _).symm⟩

/-- One error more than those of attempts, when what was read is not kept. -/
theorem record (error : SyntaxError) : cursor.Accounts [] false (cursor.record error) :=
  ⟨some error, rfl, List.reverse_cons⟩

/-- An attempt that is accounted for, and what comes after it. -/
theorem cons {attempt : Attempt} (h : attempt.Accounts)
    (hl : attempt.stop.Accounts attempts kept last) : attempt.start.Accounts (attempt :: attempts) kept last := by
  obtain ⟨own, _, hs⟩ := h
  obtain ⟨final, hf, he⟩ := hl
  refine ⟨final, hf, ?_⟩
  rw [he, hs, List.flatMap_cons, Attempt.recorded_eq hs]
  simp only [List.append_assoc]

end Cursor.Accounts

/-- Past a token that is not the end of the input there are fewer tokens. -/
theorem Feed.length_rest_lt {feed : Feed} (h : feed.head.kind ≠ .endOfInput) :
    feed.rest.tokens.length < feed.tokens.length := by
  rw [tokens_eq_head_cons h]
  exact Nat.lt_succ_self _

/-- Attempts that start later and later, each before a token that is not the end of the input, are no more than
those tokens. -/
theorem Attempt.length_le_countP {tokens : List Token} {attempts : List Attempt}
    (hs : ∀ a ∈ attempts, a.start.feed.tokens <:+ tokens)
    (hk : ∀ a ∈ attempts, a.start.feed.head.kind ≠ .endOfInput)
    (hp : attempts.Pairwise fun earlier later => later.start.remaining < earlier.start.remaining) :
    attempts.length ≤ tokens.countP fun token => token.kind ≠ .endOfInput := by
  induction tokens generalizing attempts with
  | nil =>
    cases attempts with
    | nil => exact Nat.zero_le _
    | cons a others =>
      have hl := Feed.length_rest_lt (hk a List.mem_cons_self)
      rw [List.suffix_nil.mp (hs a List.mem_cons_self)] at hl
      exact absurd hl (Nat.not_lt_zero _)
  | cons token tokens ih =>
    cases attempts with
    | nil => exact Nat.zero_le _
    | cons a others =>
      obtain ⟨ha, ho⟩ := List.pairwise_cons.mp hp
      obtain ⟨hka, hko⟩ := List.forall_mem_cons.mp hk
      -- Only the first attempt may start before the first token, for the others start later.
      have others_suffix : ∀ b ∈ others, b.start.feed.tokens <:+ tokens := fun b hb => by
        have hl : b.start.feed.tokens.length < (token :: tokens).length :=
          Nat.lt_of_lt_of_le (ha b hb) (hs a List.mem_cons_self).length_le
        obtain he | h := List.suffix_cons_iff.mp (hs b (List.mem_cons_of_mem a hb))
        · exact absurd hl (he ▸ Nat.lt_irrefl _)
        · exact h
      obtain he | h := List.suffix_cons_iff.mp (hs a List.mem_cons_self)
      · have hlive : token.kind ≠ .endOfInput := by
          unfold Feed.head at hka
          rw [he] at hka
          exact hka
        rw [List.countP_cons, if_pos (decide_eq_true hlive), List.length_cons]
        exact Nat.succ_le_succ (ih others_suffix hko ho)
      · exact Nat.le_trans (ih (List.forall_mem_cons.mpr ⟨h, others_suffix⟩) hk hp)
          (List.sublist_cons_self _ _).countP_le

namespace Course

open Attempt (allOf allOf_cons forall_mem_allOf_cons)

variable {cursor last : Cursor} {attempts : List Attempt} {kept : Bool}

/-- **Errors are accounted for along a course**, and by every attempt on the way. -/
theorem accounts (h : Course cursor attempts kept last) :
    cursor.Accounts attempts kept last ∧ ∀ a ∈ allOf attempts, a.Accounts := by
  induction h with
  | nothing => exact ⟨.nothing, List.forall_mem_nil _⟩
  | take _ _ ih => exact ih
  | @refuse cursor => exact ⟨(.record _ : cursor.advance.Accounts _ _ _), List.forall_mem_nil _⟩
  | require => exact ⟨.record _, List.forall_mem_nil _⟩
  | @unclosed cursor => exact ⟨(.record _ : cursor.advance.Accounts _ _ _), List.forall_mem_nil _⟩
  | @attempt cursor middle last result nested attempts kept _ _ _ _ _ _ inner rest =>
    have ha : Attempt.Accounts ⟨cursor, middle, result, nested⟩ := inner.1
    exact ⟨Cursor.Accounts.cons ha rest.1, forall_mem_allOf_cons ha inner.2 rest.2⟩

/-- Attempts are runs of the rule of a statement, each before a token that is not the end of the input. -/
theorem ran (h : Course cursor attempts kept last) :
    ∀ a ∈ allOf attempts, a.start.Attempts a.result a.stop ∧ a.start.feed.head.kind ≠ .endOfInput := by
  induction h with
  | nothing | refuse | require | unclosed => exact List.forall_mem_nil _
  | take _ _ ih => exact ih
  | attempt ran hk _ _ _ _ inner rest => exact forall_mem_allOf_cons ⟨ran, hk⟩ inner rest

/-- Attempts do not start before the tokens that are left. -/
theorem remaining_lt (h : Course cursor attempts kept last) :
    ∀ a ∈ allOf attempts, last.remaining < a.start.remaining := by
  induction h with
  | nothing | refuse | require | unclosed => exact List.forall_mem_nil _
  | take _ _ ih => exact ih
  | @attempt cursor middle last _ _ _ _ _ hk _ _ hm hr inner rest =>
    have hl : last.remaining ≤ middle.remaining := hr.suffix.length_le
    refine forall_mem_allOf_cons ?_ (fun a ha => Nat.lt_of_le_of_lt hl (inner a ha)) rest
    exact Nat.lt_of_le_of_lt (Nat.le_trans hl hm.length_le) (Feed.length_rest_lt hk)

/-- **Attempts start later and later.** -/
theorem pairwise (h : Course cursor attempts kept last) :
    (allOf attempts).Pairwise fun earlier later => later.start.remaining < earlier.start.remaining := by
  induction h with
  | nothing | refuse | require | unclosed => exact .nil
  | take _ _ ih => exact ih
  | @attempt cursor middle last _ nested others _ _ hk hi hn hm hr inner rest =>
    have hp := Feed.length_rest_lt hk
    rw [allOf_cons, List.pairwise_cons, List.pairwise_append]
    refine ⟨List.forall_mem_append.mpr ⟨fun a ha => ?_, fun a ha => ?_⟩, inner, rest, fun a ha b hb => ?_⟩
    · exact Nat.lt_of_le_of_lt (hn a ha).length_le hp
    · exact Nat.lt_of_le_of_lt (Nat.le_trans (hr.suffix_of_mem a ha).length_le hm.length_le) hp
    · exact Nat.lt_of_le_of_lt (hr.suffix_of_mem b hb).length_le (hi.remaining_lt a ha)

/-- Errors number the attempts that failed, and one more if what was read is not kept. -/
theorem length_errors (h : Course cursor attempts kept last) :
    last.errors.length =
      cursor.errors.length + ((allOf attempts).countP (·.result.isNone) + if kept then 0 else 1) := by
  induction h with
  | nothing => rfl
  | refuse | require | unclosed => rfl
  | take _ _ ih => exact ih
  | @attempt _ _ _ result _ _ _ _ _ _ _ _ _ inner rest =>
    rw [rest, inner, allOf_cons, List.countP_cons, List.countP_append]
    cases result <;> simp <;> omega

end Course

/-- **Reading any tokens comes to an end, and every error is one statement left out.**

The rule of a program completes within its bound, and its errors are those of the attempts at the outermost
level. Of all attempts, at whatever depth, each is a run of the rule of a statement and accounts for its errors:
one of its own if it failed, none if it did not. They start one after another before tokens that are not the end
of the input, at most one before each. So there are as many errors as statements left out, and no more than those
tokens. -/
theorem Feed.parse_accounted (tokens : List Token) :
    let feed := Feed.ofTokens tokens
    let attempts := Attempt.allOf feed.attempts
    (∃ next, Grammar.program feed.depthBound ⟨feed, []⟩ = .done feed.parse.program next ∧
        Recorded.program feed.depthBound ⟨feed, []⟩ = (.done feed.parse.program next, feed.attempts) ∧
        feed.parse.errors = next.errors.reverse ∧ Cursor.Accounts ⟨feed, []⟩ feed.attempts true next) ∧
      (∀ a ∈ attempts, a.start.Attempts a.result a.stop ∧ a.Accounts ∧
        ∃ before token after, tokens = before ++ token :: after ∧ a.start.feed.tokens = token :: after ∧
          token.kind ≠ .endOfInput) ∧
      (attempts.Pairwise fun earlier later => later.start.remaining < earlier.start.remaining) ∧
      feed.parse.program = feed.attempts.filterMap Attempt.result ∧
      feed.parse.errors.length = attempts.countP (·.result.isNone) ∧
      (feed.parse.errors.length ≤ tokens.countP fun token => token.kind ≠ .endOfInput) ∧
      (feed.parse.errors = [] ↔ ∀ a ∈ attempts, a.result.isSome) := by
  intro feed attempts
  obtain ⟨next, hg, he, hr, hc, hf, _⟩ := feed.exists_course
  have hlive : ∀ a ∈ attempts, a.start.feed.head.kind ≠ .endOfInput := fun a ha => (hc.ran a ha).2
  have hcount : feed.parse.errors.length = attempts.countP (·.result.isNone) := by
    rw [he, List.length_reverse, hc.length_errors]
    exact Nat.zero_add _
  refine ⟨⟨next, hg, hr, he, hc.accounts.1⟩, fun a ha => ⟨(hc.ran a ha).1, hc.accounts.2 a ha, ?_⟩,
    hc.pairwise, hf, hcount, ?_, ?_⟩
  · obtain ⟨before, hb⟩ := hc.suffix_of_mem a ha
    have ht := Feed.tokens_eq_head_cons (hlive a ha)
    exact ⟨before, _, _, (ht ▸ hb).symm, ht, hlive a ha⟩
  · rw [hcount]
    exact Nat.le_trans List.countP_le_length (Attempt.length_le_countP hc.suffix_of_mem hlive hc.pairwise)
  · rw [← List.length_eq_zero_iff, hcount, List.countP_eq_zero]
    simp only [Bool.not_eq_true, Option.isNone_eq_false_iff]

end TinyScript
