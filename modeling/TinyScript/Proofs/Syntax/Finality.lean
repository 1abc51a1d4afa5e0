import TinyScript.Proofs.Syntax.Replaying

/-! # Tokens after an end of the input

A list of tokens may hold an end of the input with tokens after it. Reading stops before it when no statement is begun
(`Grammar.program`), but a rule that fails for it has taken it, and reading goes on with the tokens after it
(`Feed.endOfInput_not_final`). That is the only way past it: **as long as no error is recorded against the end
of the input, nothing after it is read** (`Feed.parse_eq_of_endOfInput`).
-/

namespace TinyScript

/-- The cursors of two readings have the same tokens up to an end of the input, and the same errors. Where an error
is recorded against the end of the input, the second reading is not followed any more. -/
inductive Cursor.Shares : Cursor → Option Cursor → Prop where
  | together {before after after' : List Token} {last : Token} {line line' : Nat} {errors : List SyntaxError}
      (hk : last.kind = .endOfInput) :
      Shares ⟨⟨before ++ last :: after, line⟩, errors⟩ (some ⟨⟨before ++ last :: after', line'⟩, errors⟩)
  | apart {cursor : Cursor} (h : ∃ error ∈ cursor.errors, error.blamesEnd = true) : Shares cursor none

namespace Cursor.Shares

variable {cursor : Cursor} {place : Option Cursor}

/-- A failure at the end of the input sets the readings apart; any other failure is one of both. -/
theorem refuse (h : Shares cursor place) (refusal : Refusal) :
    Shares (cursor.refuse refusal) (place.map (Cursor.refuse refusal)) ∨ Shares (cursor.refuse refusal) none := by
  cases h with
  | @together before after after' last line line' errors hk =>
    cases before with
    | nil =>
      have hb : (refusal.error last).blamesEnd = true := by rw [refusal.blamesEnd_error, hk]; rfl
      refine .inr (.apart ⟨refusal.error last, ?_, hb⟩)
      cases refusal <;> exact List.mem_cons_self
    | cons token before =>
      cases refusal with
      | require kind => exact .inl (@together (token :: before) after after' last line line' _ hk)
      | operand => exact .inl (.together hk)
      | unclosed => exact .inl (.together hk)
  | apart h =>
    obtain ⟨error, hm, hb⟩ := h
    refine .inr (.apart ⟨error, ?_, hb⟩)
    cases refusal <;> exact List.mem_cons_of_mem _ hm

/-- Two vectors that agree up to the end of input are read alike up to there. -/
theorem tracking : Tracking Shares where
  head h := by
    cases h with
    | @together before _ _ _ _ _ _ hk => cases before <;> exact .refl _
  take h hn := by
    cases h with
    | @together before _ _ _ _ _ _ hk =>
      cases before with
      | nil => exact absurd hk hn
      | cons token before => exact .together hk
    | apart h => exact .apart h
  refuse := refuse

end Cursor.Shares

/-- **Lists of tokens that agree up to an end of the input are read alike**, as long as no error is recorded against
the end of the input. -/
theorem Feed.parse_eq_of_endOfInput {last : Token} (before after after' : List Token)
    (hk : last.kind = .endOfInput)
    (h : ∀ error ∈ (ofTokens (before ++ last :: after)).parse.errors, error.blamesEnd = false) :
    (ofTokens (before ++ last :: after')).parse = (ofTokens (before ++ last :: after)).parse := by
  obtain ⟨next, place, hs, hn, hl⟩ := exists_tracked Cursor.Shares.tracking
    (ofTokens (before ++ last :: after)) (ofTokens (before ++ last :: after')) (.together hk)
  cases hs with
  | together =>
    rw [hl _ rfl, ← hn]
  | apart hb =>
    obtain ⟨error, hm, hb⟩ := hb
    rw [h error (hn ▸ List.mem_reverse.mpr hm)] at hb
    cases hb

/-- A name and an end of the input are read as that name, whatever stands after them. -/
theorem Feed.parse_eq_of_endOfInput_name :
    (ofTokens [⟨.identifier, "x", 1⟩, Token.atEnd 1]).parse.errors = [] ∧
      (ofTokens [⟨.identifier, "x", 1⟩, Token.atEnd 1, ⟨.leftParen, "(", 1⟩]).parse =
        (ofTokens [⟨.identifier, "x", 1⟩, Token.atEnd 1]).parse :=
  ⟨rfl, parse_eq_of_endOfInput [⟨.identifier, "x", 1⟩] [] [⟨.leftParen, "(", 1⟩] rfl (by decide)⟩

/-- An opening parenthesis takes an end of the input for an operand, and the name after it is read as a statement. -/
theorem Feed.parse_past_endOfInput :
    (ofTokens [⟨.leftParen, "(", 1⟩, Token.atEnd 1, ⟨.identifier, "x", 1⟩]).parse =
        ⟨[.expression (.ident ⟨"x", 1⟩) 1], [.noOperand .endOfInput 1]⟩ ∧
      (ofTokens [⟨.leftParen, "(", 1⟩, Token.atEnd 1]).parse = ⟨[], [.noOperand .endOfInput 1]⟩ :=
  ⟨rfl, rfl⟩

/-- **The first end of the input is not final** when an error is recorded against it. -/
theorem Feed.endOfInput_not_final :
    ¬ ∀ (before after after' : List Token) (last : Token), (∀ token ∈ before, token.kind ≠ .endOfInput) →
      last.kind = .endOfInput →
        (ofTokens (before ++ last :: after)).parse = (ofTokens (before ++ last :: after')).parse := by
  intro h
  have hp := h [⟨.leftParen, "(", 1⟩] [⟨.identifier, "x", 1⟩] [] (Token.atEnd 1) (by decide) rfl
  rw [List.singleton_append, List.singleton_append, parse_past_endOfInput.1, parse_past_endOfInput.2] at hp
  cases congrArg Parse.program hp

end TinyScript
