import TinyScript.Proofs.Layout.Evaluation
import TinyScript.Proofs.Layout.Reading
import TinyScript.Proofs.Session.Ends
import TinyScript.Text.Fx

/-! # Layout does not matter

Two texts whose tokens have the same kinds and the same texts differ in their layout alone: in blanks,
newlines and comments, and so in the lines of their tokens. **Running such texts ends alike**
(`Result.ofSource_corresponds`): both meet the bound, both have the same syntax errors, both give values that
look the same, or both fail in the same way, but for the lines that are mentioned.
-/

namespace TinyScript

/-- What of a token does not depend on layout. -/
def Token.face (token : Token) : Token.Kind × String := (token.kind, token.literal)

/-- Two results that differ in lines alone. -/
inductive Result.Corresponds : Result → Result → Prop where
  | value {object other : Object} (hk : object.kind = other.kind) (hr : object.render = other.render) :
      Result.Corresponds (.value object) (.value other)
  | malformed {errors others : List SyntaxError}
      (h : errors.map SyntaxError.unlined = others.map SyntaxError.unlined) :
      Result.Corresponds (.malformed errors) (.malformed others)
  | failed {failure other : Failure} (h : failure.fault = other.fault) :
      Result.Corresponds (.failed failure) (.failed other)

/-- Objects that are the same without their lines have one kind and one text. -/
theorem Result.corresponds_value {object other : Object} {f : Nat → Nat}
    (h : object.relined f = other.relined f) : Result.Corresponds (.value object) (.value other) := by
  refine .value ?_ ?_
  · rw [← Object.kind_relined (f := f), h, Object.kind_relined]
  · rw [← Object.render_relined (f := f), h, Object.render_relined]

/-- Tokens of one kind and one text are the same without their lines. -/
theorem Token.unlined_eq_of_face {tokens others : List Token}
    (h : tokens.map Token.face = others.map Token.face) :
    tokens.map Token.unlined = others.map Token.unlined := by
  have hu : Token.unlined = (fun face : Token.Kind × String => ⟨face.1, face.2, 0⟩) ∘ Token.face := rfl
  rw [hu, ← List.map_map, ← List.map_map, h]

/-- Texts of the same tokens are read as the same program and errors, without their lines. -/
theorem Parse.unlined_eq_of_face {source other : String}
    (h : (Token.scan source).map Token.face = (Token.scan other).map Token.face) :
    (Parse.ofSource source).relined (fun _ => 0) = (Parse.ofSource other).relined fun _ => 0 := by
  have ht : (Feed.ofSource source).tokens.map Token.face = (Feed.ofSource other).tokens.map Token.face := by
    unfold Token.scan at h
    simp only [List.map_append] at h
    exact (List.append_inj' h rfl).1
  have hf : (Feed.ofSource source).relined (fun _ => 0) = (Feed.ofSource other).relined fun _ => 0 :=
    congrArg (Feed.mk · 0) (Token.unlined_eq_of_face ht)
  unfold Parse.ofSource
  rw [← Feed.parse_relined, hf, Feed.parse_relined]

/-- A run ends with what the program ends with. -/
theorem Session.map_fst_run [ByteHash] (depth : Nat) (program : Program) (session : Session) :
    (session.run depth program).map Prod.fst =
      (Program.run depth session.scope program session.store).map fun r => Result.ofEnd r.1 := by
  unfold Session.run
  rcases Program.run depth session.scope program session.store with _ | ⟨object | failure, after⟩ <;> rfl

/-- Ends that are the same without their lines are results that differ in lines alone. -/
theorem Result.corresponds_ofEnd {f : Nat → Nat} {ended other : Except Failure Object}
    (h : Program.relinedEnd f ended = Program.relinedEnd f other) :
    Result.Corresponds (Result.ofEnd ended) (Result.ofEnd other) := by
  cases ended with
  | ok object =>
    cases other with
    | ok object' =>
      have ho : object.relined f = object'.relined f := Except.ok.inj h
      exact Result.corresponds_value ho
    | error failure' => cases h
  | error failure =>
    cases other with
    | ok object' => cases h
    | error failure' =>
      have hf : failure.relined f = failure'.relined f := Except.error.inj h
      exact .failed (Failure.mk.inj hf).1

/-- Programs that are the same without their lines end alike in one session. -/
theorem Session.run_corresponds [ByteHash] {program other : Program}
    (h : Statement.unlinedAll program = Statement.unlinedAll other) (depth : Nat) (session : Session) :
    Option.Rel Result.Corresponds ((session.run depth program).map Prod.fst)
      ((session.run depth other).map Prod.fst) := by
  have hp := Program.run_relined (fun _ => 0) depth session.scope program session.store
  have hq := Program.run_relined (fun _ => 0) depth session.scope other session.store
  -- both runs are the one run of the program without its lines, but for lines
  have he := hp.symm.trans ((congrArg (Program.run depth _ · _) h).trans hq)
  rw [Session.map_fst_run, Session.map_fst_run]
  cases hr : Program.run depth session.scope program session.store with
  | none =>
    cases hr' : Program.run depth session.scope other session.store with
    | none => exact .none
    | some ended' =>
      rw [hr, hr'] at he
      cases he
  | some ended =>
    cases hr' : Program.run depth session.scope other session.store with
    | none =>
      rw [hr, hr'] at he
      cases he
    | some ended' =>
      rw [hr, hr'] at he
      exact .some (Result.corresponds_ofEnd (congrArg Prod.fst (Option.some.inj he)))

/-- **Texts that differ in layout alone end alike**, within every bound. -/
theorem Result.ofSource_corresponds [ByteHash] {source other : String}
    (h : (Token.scan source).map Token.face = (Token.scan other).map Token.face) (depth : Nat) :
    Option.Rel Result.Corresponds (Result.ofSource depth source) (Result.ofSource depth other) := by
  have hp := Parse.unlined_eq_of_face h
  have he : (Parse.ofSource source).errors.map SyntaxError.unlined =
      (Parse.ofSource other).errors.map SyntaxError.unlined := congrArg Parse.errors hp
  have hi : (Parse.ofSource source).errors.isEmpty = (Parse.ofSource other).errors.isEmpty := by
    have hm := congrArg List.isEmpty he
    rwa [List.isEmpty_map, List.isEmpty_map] at hm
  unfold Result.ofSource Session.interpret
  simp only [hi]
  split
  · exact Session.run_corresponds (congrArg Parse.program hp) depth Session.fresh
  · exact .some (.malformed he)

/-- A text on one line, and with a comment and line breaks: both fail in the same way. -/
theorem Result.ofSource_corresponds_comment :
    let source := "let f = fn(x) { x + 1 }; [f(2), f, -true]"
    let other := "// a function\nlet f =\n  fn(x) { x + 1 };\n\n[f(2), f,\n -true]"
    (Token.scan source).map Token.face = (Token.scan other).map Token.face ∧
      Option.Rel Result.Corresponds (Result.ofSource 20 source) (Result.ofSource 20 other) := by
  have h : (Token.scan "let f = fn(x) { x + 1 }; [f(2), f, -true]").map Token.face =
      (Token.scan "// a function\nlet f =\n  fn(x) { x + 1 };\n\n[f(2), f,\n -true]").map Token.face := by
    decide +kernel
  exact ⟨h, Result.ofSource_corresponds h 20⟩

end TinyScript
