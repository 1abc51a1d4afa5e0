import TinyScript.Proofs.Blame.Evaluation
import TinyScript.Proofs.Syntax.Course
import TinyScript.Proofs.Syntax.Soundness
import TinyScript.Proofs.Token.Lines
import TinyScript.Text.Fx

/-! # The lines that a text is blamed on

A text is at fault on lines of its own. Its tokens and the end of its input stand on lines that it has. The rules of the
grammar report each mistake on the line of a token that they looked at (`Course.onLines`), and a failure is on the line
of a site, which is that of a token again. So **whatever is wrong with a text, the line reported is one of the text**, and
for a failure it is the line of a node at which evaluation can fail (`Result.lines_ofSource`).
-/

namespace TinyScript

variable {lines : Nat → Prop}

/-! ## Mistakes -/

/-- A cursor with certain lines alone before it and on record. -/
structure Cursor.OnLines (lines : Nat → Prop) (cursor : Cursor) : Prop where
  tokens : Token.OnLines lines cursor.feed.tokens
  lastLine : lines cursor.feed.lastLine
  errors : ∀ error ∈ cursor.errors, lines error.line

/-- A token is refused on its own line. -/
theorem Token.line_refusal (token : Token) : token.refusal.line = token.line := by
  unfold refusal mistake?
  split
  · rfl
  · rfl
  · split <;> rfl
  · rfl

namespace Cursor.OnLines

variable {cursor : Cursor}

/-- The next token is one of those to come, or the end of the input. -/
theorem head (h : cursor.OnLines lines) : lines cursor.feed.head.line := by
  obtain ⟨⟨tokens, lastLine⟩, errors⟩ := cursor
  cases tokens with
  | nil => exact h.lastLine
  | cons token tokens => exact h.tokens token List.mem_cons_self

/-- Going on to the next token leaves the lines as they are. -/
theorem advance (h : cursor.OnLines lines) : cursor.advance.OnLines lines where
  tokens := fun token hm => h.tokens token (List.mem_of_mem_tail hm)
  lastLine := h.lastLine
  errors := h.errors

/-- An error on one of the lines may be recorded. -/
theorem record (h : cursor.OnLines lines) {error : SyntaxError} (he : lines error.line) :
    (cursor.record error).OnLines lines where
  tokens := h.tokens
  lastLine := h.lastLine
  errors := List.forall_mem_cons.mpr ⟨he, h.errors⟩

end Cursor.OnLines

/-- **Every mistake is reported on the line of a token that was looked at.** -/
theorem Course.onLines {cursor last : Cursor} {attempts : List Attempt} {kept : Bool}
    (h : Course cursor attempts kept last) (hc : cursor.OnLines lines) : last.OnLines lines := by
  induction h with
  | nothing => exact hc
  | take _ _ ih => exact ih hc.advance
  | @refuse cursor =>
    apply hc.advance.record
    rw [Token.line_refusal]
    exact hc.head
  | require => exact hc.record hc.head
  | unclosed => exact hc.advance.record hc.head
  | attempt _ _ _ _ _ _ inner rest => exact rest (inner hc)

/-- The mistakes of a feed are on the lines of its tokens and of its end. -/
theorem Feed.onLines_errors {feed : Feed} (ht : Token.OnLines lines feed.tokens) (hl : lines feed.lastLine) :
    ∀ error ∈ feed.parse.errors, lines error.line := by
  obtain ⟨next, -, he, -, hc, -, -⟩ := feed.exists_course
  have hn := hc.onLines ⟨ht, hl, List.forall_mem_nil _⟩
  intro error hm
  rw [he, List.mem_reverse] at hm
  exact hn.errors error hm

/-! ## Texts -/

/-- The lines that a text has. -/
def Text.HasLine (source : String) (line : Nat) : Prop := 1 ≤ line ∧ line ≤ 1 + source.toList.count '\n'

/-- The tokens of a text stand on its lines. -/
theorem Feed.onLines_ofSource (source : String) :
    Token.OnLines (Text.HasLine source) (Feed.ofSource source).tokens := by
  intro token hm
  obtain ⟨count, hc⟩ := List.getElem?_of_mem hm
  obtain ⟨before, p, after, hp, -, hk⟩ := Token.exists_piece_of_getElem? hc
  obtain ⟨-, hl⟩ := Piece.role_of_token? hk
  have htext : source.toList = before.flatMap Piece.text ++ (p :: after).flatMap Piece.text := by
    rw [← List.flatMap_append, ← hp, pieces_flatMap_text]
  unfold Text.HasLine
  rw [hl, htext, List.count_append]
  omega

/-- The end of a text is on its last line. -/
theorem Feed.hasLine_lastLine (source : String) : Text.HasLine source (Feed.ofSource source).lastLine :=
  ⟨Nat.le_add_right 1 _, Nat.le_refl _⟩

/-- The mistakes of a text are on its lines. -/
theorem Parse.hasLine_errors (source : String) :
    ∀ error ∈ (Parse.ofSource source).errors, Text.HasLine source error.line :=
  Feed.onLines_errors (Feed.onLines_ofSource source) (Feed.hasLine_lastLine source)

/-- The sites of a text without mistakes are on its lines. -/
theorem Parse.onLines_sites {source : String} (h : (Parse.ofSource source).errors = []) :
    Expr.OnLines (Text.HasLine source) (Statement.sitesAll (Parse.ofSource source).program) := by
  obtain ⟨tokens, rest, ht, hw, -⟩ := Feed.written_of_errors_eq_nil h
  have hlines := Feed.onLines_ofSource source
  rw [ht, Token.OnLines.append_iff] at hlines
  exact hw.onLines hlines.1

section

variable [ByteHash]

/-- **The lines that are reported are real.** The mistakes of a text are on lines of the text. If it fails, then at a
site of its program, on that site's line, which is one of the text too. -/
theorem Result.lines_ofSource (depth : Nat) (source : String) :
    (∀ errors, Result.ofSource depth source = some (.malformed errors) →
      ∀ error ∈ errors, Text.HasLine source error.line) ∧
    ∀ failure, Result.ofSource depth source = some (.failed failure) →
      (∃ site ∈ Statement.sitesAll (Parse.ofSource source).program, site.line = failure.line) ∧
        Text.HasLine source failure.line := by
  constructor
  · intro errors h
    obtain ⟨⟨result, later⟩, hi, rfl⟩ := Option.map_eq_some_iff.mp h
    rcases Session.interpret_cases hi with ⟨-, he, -⟩ | ⟨-, hr⟩
    · cases he
      exact Parse.hasLine_errors source
    · obtain ⟨ended, -, he, -⟩ := Session.run_eq_some_iff.mp hr
      cases ended <;> cases he
  · intro failure h
    obtain ⟨⟨result, later⟩, hi, rfl⟩ := Option.map_eq_some_iff.mp h
    rcases Session.interpret_cases hi with ⟨-, he, -⟩ | ⟨hn, hr⟩
    · cases he
    · obtain ⟨ended, hp, he, -⟩ := Session.run_eq_some_iff.mp hr
      cases ended with
      | ok object => cases he
      | error failure =>
        cases he
        have nothing : ∀ id, Session.fresh.store.locals id = [] := fun id => Store.locals_enclose (.root 0)
        obtain ⟨site, hm, hl⟩ := Program.exists_site_of_run nothing hp
        exact ⟨⟨site, hm, hl⟩, hl ▸ Parse.onLines_sites hn site hm⟩

end

/-- A fault in the body of a function that a later line calls is reported on the line of the body. A text with two
syntax errors has them on the lines that they stand on. -/
theorem Result.lines_ofSource_called :
    let failing := "let negate = fn(x) \x7b\n  -x\n\x7d;\n[1, \n negate(true)]"
    let malformed := "let x 5;\n\n(1 +"
    (∃ failure, Result.ofSource 20 failing = some (.failed failure) ∧ failure.line = 2 ∧
      (∃ site ∈ Statement.sitesAll (Parse.ofSource failing).program, site.line = failure.line) ∧
        Text.HasLine failing failure.line) ∧
    ∃ errors, Result.ofSource 20 malformed = some (.malformed errors) ∧ errors.map SyntaxError.line = [1, 3] ∧
      ∀ error ∈ errors, Text.HasLine malformed error.line := by
  intro failing malformed
  have hf : (Result.ofSource 20 failing).bind (fun
      | .failed failure => some failure
      | _ => none) = some ⟨.unknownUnary .negate .boolean, 2⟩ := by
    decide +kernel
  have hm : (Result.ofSource 20 malformed).bind (fun
      | .malformed errors => some (errors.map SyntaxError.line)
      | _ => none) = some [1, 3] := by
    decide +kernel
  obtain ⟨result, hf, he⟩ := Option.bind_eq_some_iff.mp hf
  obtain ⟨other, hm, hl⟩ := Option.bind_eq_some_iff.mp hm
  constructor
  · cases result with
    | failed failure =>
      cases he
      exact ⟨_, hf, rfl, (Result.lines_ofSource 20 failing).2 _ hf⟩
    | _ => cases he
  · cases other with
    | malformed errors => exact ⟨errors, hm, Option.some.inj hl, (Result.lines_ofSource 20 malformed).1 _ hm⟩
    | _ => cases hl

end TinyScript
