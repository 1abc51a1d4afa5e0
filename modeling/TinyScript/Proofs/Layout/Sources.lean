import TinyScript.Proofs.Layout.Reading
import TinyScript.Proofs.Syntax.Exactness
import TinyScript.Proofs.Token.Cutting

/-! # What a source text is read as, lines aside

The lines of a program follow from where its tokens stand, and what is read off a text without its lines is
read off its tokens without theirs. **A source text is read as a program without an error exactly where its
tokens are a writing of the program, lines aside** (`Parse.ofSource_relined_eq_iff`).
-/

namespace TinyScript

/-- The scanner makes no end of the input but the last token. -/
theorem Token.kind_of_mem_ofText {source : String} {token : Token} (h : token ∈ Token.ofText source.toList) :
    token.kind ≠ .endOfInput := by
  rw [← Token.map_unlined_ofSource] at h
  obtain ⟨lined, hm, rfl⟩ := List.mem_map.mp h
  exact (Token.scanned_of_mem_ofSource hm).1

/-- Without lines, what a source text is read as is what its tokens are read as. -/
theorem Parse.ofSource_relined (source : String) :
    (Parse.ofSource source).relined (fun _ => 0) = (Feed.mk (Token.ofText source.toList) 0).parse := by
  rw [← Token.map_unlined_ofSource]
  exact (Feed.parse_relined (fun _ => 0) (Feed.ofSource source)).symm

/-- A source text is read as a program without an error, lines aside, exactly where its tokens write it. -/
theorem Parse.ofSource_relined_eq_iff {source : String} {program : Program} :
    (Parse.ofSource source).relined (fun _ => 0) = ⟨program, []⟩ ↔
      Statement.WrittenAll program (Token.ofText source.toList) := by
  rw [Parse.ofSource_relined, Feed.parse_eq_iff]
  constructor
  · rintro ⟨tokens, rest, ht, hw, he⟩
    cases rest with
    | nil =>
      rw [List.append_nil] at ht
      rwa [show Token.ofText source.toList = tokens from ht]
    | cons token rest =>
      have hm : token ∈ Token.ofText source.toList := by
        rw [show Token.ofText source.toList = tokens ++ token :: rest from ht]
        exact List.mem_append_right tokens List.mem_cons_self
      exact absurd he (Token.kind_of_mem_ofText hm)
  · intro hw
    exact ⟨_, [], (List.append_nil _).symm, hw, rfl⟩

/-- A text without a syntax error is a writing of its program, lines aside. -/
theorem Parse.written_of_errors_eq_nil {source : String} (h : (Parse.ofSource source).errors = []) :
    Statement.WrittenAll (Statement.unlinedAll (Parse.ofSource source).program)
      (Token.ofText source.toList) := by
  refine Parse.ofSource_relined_eq_iff.mp ?_
  unfold Parse.relined
  rw [h]
  rfl

/-- A text that writes a program, lines aside, is read as it without an error. -/
theorem Parse.ofSource_of_written {source : String} {program : Program}
    (h : Statement.WrittenAll program (Token.ofText source.toList)) :
    (Parse.ofSource source).errors = [] ∧
      Statement.unlinedAll (Parse.ofSource source).program = program := by
  have hp := Parse.ofSource_relined_eq_iff.mpr h
  exact ⟨List.map_eq_nil_iff.mp (congrArg Parse.errors hp), congrArg Parse.program hp⟩

end TinyScript
