import TinyScript.Proofs.Matching.Tracelessness
import TinyScript.Proofs.Nesting.Evaluation
import TinyScript.Text.Fx

/-! # Nested blocks run in place

The braces of a nested block that is not empty can be taken away, anywhere in a program, in the functions that it
defines too. **The text of the program stays what it is, and in every scope and store the program terminates if and
only if it did, and as it did**: with a value, a `return` or a failure that looks the same, and with the same names
bound in the same scopes (`Statement.UnbracesAll.runs_alike`). Both programs do what the program does that they are
flattened to.
-/

namespace TinyScript

open Evaluation

/-- Ends of runs that look the same from outside: in how the runs complete, and in what is bound in each scope. -/
structure Completion.EndsLike (completion : Completion Object) (after : Store) (completion' : Completion Object)
    (after' : Store) : Prop where
  looks : completion.LooksLike completion'
  scopes : after.bindings.size = after'.bindings.size
  names : ∀ id name, after.face id name = after'.face id name

variable {r : Recoding} {completion completion' : Completion Object} {store after after' : Store}

/-- Objects that are the same but for their code look the same. -/
theorem Object.face_eq_of_recoded {object object' : Object} (h : object.recoded r = object'.recoded r) :
    object.face = object'.face := by
  rw [← Object.face_recoded (r := r), h, Object.face_recoded]

/-- A map of code does not reach what can be seen of an object. -/
theorem Completion.looksLike_of_recoded
    (h : completion.recoded r (Object.recoded r) = completion'.recoded r (Object.recoded r)) :
    completion.LooksLike completion' := by
  cases completion with
  | normal object =>
    cases completion' with
    | normal object' => exact .normal (Object.face_eq_of_recoded (Completion.normal.inj h))
    | returned object' => cases h
    | failed failure' => cases h
  | returned object =>
    cases completion' with
    | normal object' => cases h
    | returned object' => exact .returned (Object.face_eq_of_recoded (Completion.returned.inj h))
    | failed failure' => cases h
  | failed failure =>
    cases completion' with
    | normal object' => cases h
    | returned object' => cases h
    | failed failure' =>
      cases h
      exact .failed failure

/-- Ends that are the same but for code look the same. -/
theorem Completion.endsLike_of_recoded
    (hc : completion.recoded r (Object.recoded r) = completion'.recoded r (Object.recoded r))
    (ha : after.recoded r = after'.recoded r) : completion.EndsLike after completion' after' := by
  refine ⟨Completion.looksLike_of_recoded hc, ?_, fun id name => ?_⟩
  · rw [← after.size_recoded (r := r), ha, after'.size_recoded]
  · rw [← after.face_recoded (r := r), ha, after'.face_recoded]

theorem Completion.EndsLike.symm (h : completion.EndsLike after completion' after') :
    completion'.EndsLike after' completion after := by
  obtain ⟨hl, hs, hn⟩ := h
  refine ⟨?_, hs.symm, fun id name => (hn id name).symm⟩
  cases hl with
  | normal h => exact .normal h.symm
  | returned h => exact .returned h.symm
  | failed failure => exact .failed failure

section

variable [ByteHash]

/-- Programs that are flattened to one program end alike. -/
theorem Statement.completes_of_flattened_eq {program other : Program} {scope : Scope}
    (h : Statement.flattenedAll program = Statement.flattenedAll other)
    (hc : Completes (Statement.runAll · scope .null program) store completion after) :
    ∃ completion' after', Completes (Statement.runAll · scope .null other) store completion' after' ∧
      completion.EndsLike after completion' after' := by
  obtain ⟨depth, hd⟩ := hc
  have hf := ((flattens depth).runAll scope .null program).forth store completion after hd
  rw [h] at hf
  obtain ⟨bound, hb⟩ := hf.completes
  obtain ⟨completion', after', hs, hc, ha⟩ := ((flattens bound).runAll scope .null other).back _ _ _ hb
  exact ⟨completion', after', hs.completes, Completion.endsLike_of_recoded hc.symm ha.symm⟩

/-- **Without the braces of a nested block that is not empty a program has the same text. In every scope and store it
terminates if it does with them, and only then, and its end looks the same.** -/
theorem Statement.UnbracesAll.runs_alike {program other : Program} (h : Statement.UnbracesAll program other) :
    Program.render program = Program.render other ∧ ∀ scope store,
      (∀ completion after, Completes (Statement.runAll · scope .null program) store completion after →
        ∃ completion' after', Completes (Statement.runAll · scope .null other) store completion' after' ∧
          completion.EndsLike after completion' after') ∧
      ∀ completion' after', Completes (Statement.runAll · scope .null other) store completion' after' →
        ∃ completion after, Completes (Statement.runAll · scope .null program) store completion after ∧
          completion.EndsLike after completion' after' := by
  refine ⟨h.render_eq, fun scope store => ⟨fun completion after hc => ?_, fun completion' after' hc => ?_⟩⟩
  · exact Statement.completes_of_flattened_eq h.flattened_eq hc
  · obtain ⟨completion, after, hs, he⟩ := Statement.completes_of_flattened_eq h.flattened_eq.symm hc
    exact ⟨completion, after, hs, he.symm⟩

end

/-- `let f = fn(x) { { let y = x; return y; } x }; f("a")`, with and without the inner braces. -/
theorem Statement.UnbracesAll.runs_alike_body :
    let f : Ident := ⟨"f", 1⟩
    let x : Ident := ⟨"x", 1⟩
    let y : Ident := ⟨"y", 1⟩
    let inner : List Statement := [.bind y (.ident x) 1, .leave (some (.ident y)) 1]
    let tail : List Statement := [.expression (.ident x) 2]
    let call : Program := [.expression (.call (.ident f) [.string "a" 3] 3) 3]
    let program : Program := .bind f (.function [x] (.mk (.block (.mk inner 1) :: tail) 1) 1) 1 :: call
    let other : Program := .bind f (.function [x] (.mk (inner ++ tail) 1) 1) 1 :: call
    let store : Store := ⟨#[[]], 3⟩
    Statement.UnbracesAll program other ∧
      (∃ after, Completes (Statement.runAll · (.root 0) .null program) store (.normal ⟨4, .string "a"⟩) after) ∧
      Program.render program = Program.render other ∧ ∀ scope store,
        (∀ completion after, Completes (Statement.runAll · scope .null program) store completion after →
          ∃ completion' after', Completes (Statement.runAll · scope .null other) store completion' after' ∧
            completion.EndsLike after completion' after') ∧
        ∀ completion' after', Completes (Statement.runAll · scope .null other) store completion' after' →
          ∃ completion after, Completes (Statement.runAll · scope .null program) store completion after ∧
            completion.EndsLike after completion' after' := by
  intro f x y inner tail call program other store
  have h : Statement.UnbracesAll program other :=
    .head call (.bind f 1 (.body [x] 1 (.mk 1 (.here 1 tail (List.cons_ne_nil _ _)))))
  exact ⟨h, ⟨_, 20, rfl⟩, h.runs_alike⟩

end TinyScript
