import TinyScript.Proofs.Session.Joining
import TinyScript.Proofs.Syntax.Tracking
import TinyScript.Proofs.Token.Separation

/-! # Text behind a complete text

A text that ends with a semicolon is read before the text behind it is looked at. So whatever stands behind it, from
the next line on, both are read as they are alone, with the lines of the second counted on from those of the first
(`Parse.ofSource_followed`). In particular **a syntax error never changes how the text before it is read**.

That the first text is a writing of its program says how each bound reads it; that the second one is read the same
within every bound that is enough for it (`Grammar.program_eq_or_starved`) lets the two be put together.
-/

namespace TinyScript

/-! ## Statements in front of anything -/

namespace Grammar

/-- What a program is read as within one bound, it is read as within any other, unless that is met. -/
theorem gives_program_of_done {depth : Nat} {cursor next : Cursor} {p : Program}
    (h : program depth cursor = .done p next) (bound : Nat) : (program bound).Gives cursor p next := by
  obtain hd | hd := Nat.le_total depth bound
  · exact .inl (program_of_le h hd)
  · obtain hp | hp := program_eq_or_starved hd cursor
    · exact .inl (hp.trans h)
    · exact .inr hp

end Grammar

open Grammar Rule in
/-- Statements that end with a semicolon are read, and then whatever is read behind them. -/
theorem Statement.WrittenAll.gives_program_before {rest : List Token} {line : Nat} {errors : List SyntaxError}
    {others : Program} {next : Cursor} {ss : List Statement} {tokens : List Token}
    (hr : ∀ depth, (program depth).Gives ⟨⟨rest, line⟩, errors⟩ others next) :
    Statement.WrittenAll ss tokens → Token.Ended tokens →
      ∀ depth, (program depth).Gives ⟨⟨tokens ++ rest, line⟩, errors⟩ (ss ++ others) next
  | .nil, _, depth => hr depth
  | .ended _ _ _ _, _, 0 => gives_starve
  | .unended _ _ _, _, 0 => gives_starve
  | @ended semicolon s ss first more h hs ht, he, depth + 1 => by
    have hm : Token.Ended ([semicolon] ++ more) := he.of_append
    rw [List.append_assoc, List.cons_append]
    refine gives_program_succ h (h.gives _ line errors ?_ (gives_skipSemicolon hs) depth)
      (gives_program_before hr ht hm.of_append depth)
    exact Statement.stops_of_semicolon hs
  | @unended s ss first more h hn ht, he, depth + 1 => by
    rw [List.append_assoc]
    obtain rfl | ⟨token, tail, rfl, hb⟩ := ht.eq_nil_or_exists_cons
    · rw [List.append_nil] at he
      exact absurd he h.unended.not_ended
    · obtain ⟨hst, hs⟩ := (hn token rfl).stops (Token.Kind.ne_of_begins hb rfl)
      exact gives_program_succ h (h.gives (token :: tail ++ rest) line errors hst (gives_skipSemicolon_of_ne hs) depth)
        (gives_program_before hr ht he.of_append depth)

/-- Tokens that write a program and end with a semicolon are read as that program, whatever is behind them. -/
theorem Feed.parse_append {program : Program} {tokens rest : List Token} {line : Nat}
    (h : Statement.WrittenAll program tokens) (he : Token.Ended tokens) :
    (Feed.mk (tokens ++ rest) line).parse =
      ⟨program ++ (Feed.mk rest line).parse.program, (Feed.mk rest line).parse.errors⟩ := by
  obtain ⟨others, next, hg, hp⟩ := (Feed.mk rest line).exists_parse
  obtain ⟨statements, last, hg', hp'⟩ := (Feed.mk (tokens ++ rest) line).exists_parse
  obtain hd | hd := h.gives_program_before (Grammar.gives_program_of_done hg) he
    (Feed.mk (tokens ++ rest) line).depthBound
  · rw [hp, hp']
    cases hd.symm.trans hg'
    rfl
  · cases hd.symm.trans hg'

/-! ## Texts in front of anything -/

/-- **Whatever stands behind a complete text, both are read as they are alone.** The second text is read with its
lines counted on, its errors are all there are, and it may be malformed in any way. -/
theorem Parse.ofSource_followed {source : String} (h : Parse.Complete source) (other : String) :
    let below := (Parse.ofSource other).relined (· + (1 + source.toList.count '\n'))
    Parse.ofSource (source ++ "\n" ++ other) =
      ⟨(Parse.ofSource source).program ++ below.program, below.errors⟩ := by
  obtain ⟨tokens, rest, ht, hw, hk⟩ := Feed.written_of_errors_eq_nil h.errors_eq
  obtain rfl := Feed.eq_nil_of_ofSource ht hk
  rw [List.append_nil] at ht
  have he : Token.Ended tokens := by
    intro last hl
    obtain ⟨token, hm, hs⟩ := h.ended
    rw [ht, hl] at hm
    exact Option.some.inj hm ▸ hs
  have hopen : ∀ token ∈ (Token.ofText source.toList).getLast?, token.kind ≠ .openString := by
    intro token hm ho
    cases (h.ended_ofText token hm).symm.trans ho
  intro below
  unfold Parse.ofSource
  rw [Feed.ofSource_newline other hopen, ht, Feed.parse_append hw he]
  have hb : ((Feed.ofSource other).relined (· + (1 + source.toList.count '\n'))).parse = below :=
    Feed.parse_relined _ _
  show Parse.mk (_ ++ ((Feed.ofSource other).relined _).parse.program) _ = _
  rw [hb]

/-- A call that is left open on the next line is no concern of the statement in front of it. -/
theorem Parse.ofSource_followed_open :
    let below := (Parse.ofSource "f(x").relined (· + (1 + "let x = [1,\n2];".toList.count '\n'))
    Parse.Complete "let x = [1,\n2];" ∧ below.errors.map SyntaxError.line = [3] ∧
      Parse.ofSource ("let x = [1,\n2];" ++ "\n" ++ "f(x") =
        ⟨(Parse.ofSource "let x = [1,\n2];").program ++ below.program, below.errors⟩ := by
  have h : Parse.Complete "let x = [1,\n2];" :=
    ⟨by decide +kernel, Option.map_eq_some_iff.mp (by decide +kernel : _ = some Token.Kind.semicolon)⟩
  exact ⟨h, by decide +kernel, Parse.ofSource_followed h "f(x"⟩

end TinyScript
