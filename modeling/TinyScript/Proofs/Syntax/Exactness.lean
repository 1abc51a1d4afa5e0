import TinyScript.Proofs.Syntax.Completeness
import TinyScript.Proofs.Syntax.Soundness
import TinyScript.Proofs.Token.Spelling

/-! # What is read is what is written

A program is read without an error exactly where it is written, up to the end of the input
(`Feed.parse_eq_iff`); so no tokens are a writing of two programs (`Statement.WrittenAll.unique`). In a
source text nothing stands after the end of the input, and **the tokens of a text without a syntax error are
a writing of the program it is read as** (`Parse.ofSource_written`): none is dropped and none made up.
-/

namespace TinyScript

/-- A feed is read as a program without an error where the program is written at its front, up to the end of
the input. -/
theorem Feed.parse_eq_iff {feed : Feed} {program : Program} :
    feed.parse = ⟨program, []⟩ ↔
      ∃ tokens rest, feed.tokens = tokens ++ rest ∧ Statement.WrittenAll program tokens ∧
        (Feed.mk rest feed.lastLine).head.kind = .endOfInput := by
  constructor
  · intro h
    obtain ⟨tokens, rest, ht, hw, he⟩ := written_of_errors_eq_nil (congrArg Parse.errors h)
    rw [h] at hw
    exact ⟨tokens, rest, ht, hw, he⟩
  · rintro ⟨tokens, rest, ht, hw, he⟩
    obtain ⟨all, lastLine⟩ := feed
    subst ht
    exact parse_of_written hw he

/-- No tokens are a writing of two programs. -/
theorem Statement.WrittenAll.unique {program other : Program} {tokens : List Token}
    (h : Statement.WrittenAll program tokens) (ho : Statement.WrittenAll other tokens) :
    program = other := by
  have hp : (Feed.mk (tokens ++ []) 0).parse = ⟨program, []⟩ := Feed.parse_of_written h rfl
  have hq : (Feed.mk (tokens ++ []) 0).parse = ⟨other, []⟩ := Feed.parse_of_written ho rfl
  exact congrArg Parse.program (hp.symm.trans hq)

/-- The tokens of a source text end where its text does. -/
theorem Feed.eq_nil_of_ofSource {source : String} {tokens rest : List Token} {line : Nat}
    (h : (Feed.ofSource source).tokens = tokens ++ rest)
    (he : (Feed.mk rest line).head.kind = .endOfInput) : rest = [] := by
  cases rest with
  | nil => rfl
  | cons token others =>
    have hm : token ∈ (Feed.ofSource source).tokens := by
      rw [h]
      exact List.mem_append_right tokens List.mem_cons_self
    exact absurd he (Token.scanned_of_mem_ofSource hm).1

/-- **The tokens of a text without a syntax error are a writing of its program.** Before the end of the input
stand the tokens of the tree, each spelled as its kind is and in the order of the tree, and nothing else but
what a writing allows. -/
theorem Parse.ofSource_written {source : String} (h : (Parse.ofSource source).errors = []) :
    ∃ tokens line, Token.scan source = tokens ++ [Token.atEnd line] ∧
      (∀ token ∈ tokens, token.kind ≠ .endOfInput ∧ token.Spelled) ∧
      Statement.WrittenAll (Parse.ofSource source).program tokens := by
  obtain ⟨tokens, rest, ht, hw, he⟩ := Feed.written_of_errors_eq_nil h
  have hr := Feed.eq_nil_of_ofSource ht he
  subst hr
  rw [List.append_nil] at ht
  refine ⟨tokens, (Feed.ofSource source).lastLine, ?_, ?_, hw⟩
  · rw [← ht]
    rfl
  · intro token hm
    exact Token.scanned_of_mem_ofSource (ht ▸ hm)

/-- A source text with a function, operators of several levels, a grouping, an index and a hash with a trailing comma.
-/
theorem Parse.ofSource_written_closure :
    let source := "let f = fn(x, y) \x7b -x * (2.5 + y) \x7d;\n[f(1, 2)[0] or true, \x7b\"a\": 1,\x7d]"
    (Parse.ofSource source).errors = [] ∧
      ∃ tokens line, Token.scan source = tokens ++ [Token.atEnd line] ∧
        (∀ token ∈ tokens, token.kind ≠ .endOfInput ∧ token.Spelled) ∧
        Statement.WrittenAll (Parse.ofSource source).program tokens := by
  have h : (Parse.ofSource
      "let f = fn(x, y) \x7b -x * (2.5 + y) \x7d;\n[f(1, 2)[0] or true, \x7b\"a\": 1,\x7d]").errors =
      [] := by
    decide +kernel
  exact ⟨h, Parse.ofSource_written h⟩

end TinyScript
