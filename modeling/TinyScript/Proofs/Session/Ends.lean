import TinyScript.Session

/-! # How running ends

A program ends as its statements complete, where a `return` at the top is an end like any other, and a session hands
the end on as a result. The laws here take what a session does apart into the statements that it runs
(`Program.exists_completion`, `Session.run_eq_some_iff`, `Session.interpret_cases`, `Session.evaluate_eq_some`).
-/

namespace TinyScript

/-- The end that a completion at the top is. -/
def Completion.ended : Completion Object → Except Failure Object
  | .normal object => .ok object
  | .returned object => .ok object
  | .failed failure => .error failure

/-- A program that ends with a value has completed normally or by a `return`. -/
theorem Completion.eq_of_ended_ok {completion : Completion Object} {object : Object}
    (h : completion.ended = .ok object) : completion = .normal object ∨ completion = .returned object := by
  cases completion with
  | normal value =>
    cases h
    exact .inl rfl
  | returned value =>
    cases h
    exact .inr rfl
  | failed failure => cases h

/-- Only a failure ends with an error: `return` at the top gives its object. -/
theorem Completion.eq_of_ended_error {completion : Completion Object} {failure : Failure}
    (h : completion.ended = .error failure) : completion = .failed failure := by
  cases completion with
  | normal value => cases h
  | returned value => cases h
  | failed failure' =>
    cases h
    rfl

variable [ByteHash]

/-- A program ends as its statements complete. -/
theorem Program.exists_completion {depth : Nat} {scope : Scope} {program : Program} {store after : Store}
    {ended : Except Failure Object} (h : Program.run depth scope program store = some (ended, after)) :
    ∃ completion, Statement.runAll depth scope .null program store = some (completion, after) ∧
      completion.ended = ended := by
  unfold Program.run at h
  split at h
  · next object later hr =>
    cases h
    exact ⟨.normal object, hr, rfl⟩
  · next object later hr =>
    cases h
    exact ⟨.returned object, hr, rfl⟩
  · next failure later hr =>
    cases h
    exact ⟨.failed failure, hr, rfl⟩
  · cases h

/-- The result that the end of a program is. -/
def Result.ofEnd : Except Failure Object → Result
  | .ok object => .value object
  | .error failure => .failed failure

namespace Session

variable {depth : Nat} {session later : Session} {program : Program} {source : String} {result : Result}

/-- A session runs a program in its scope, and stays in it. -/
theorem run_eq_some_iff :
    session.run depth program = some (result, later) ↔
      ∃ ended, Program.run depth session.scope program session.store = some (ended, later.store) ∧
        result = Result.ofEnd ended ∧ later.scope = session.scope := by
  unfold Session.run
  obtain ⟨store, scope⟩ := later
  cases Program.run depth session.scope program session.store with
  | none =>
    constructor
    · intro h
      cases h
    · rintro ⟨_, ⟨⟩, _⟩
  | some outcome =>
    obtain ⟨ended, after⟩ := outcome
    constructor
    · intro h
      cases ended <;> cases h <;> exact ⟨_, rfl, rfl, rfl⟩
    · rintro ⟨_, ⟨⟩, rfl, rfl⟩
      cases ended <;> rfl

/-- A text with a syntax error is not run, and any other text is run as its program. -/
theorem interpret_cases (h : session.interpret depth source = some (result, later)) :
    ((Parse.ofSource source).errors ≠ [] ∧ result = .malformed (Parse.ofSource source).errors ∧ later = session) ∨
      (Parse.ofSource source).errors = [] ∧
        session.run depth (Parse.ofSource source).program = some (result, later) := by
  unfold Session.interpret at h
  dsimp only at h
  split at h
  · next he => exact .inr ⟨List.isEmpty_iff.mp he, h⟩
  · next he =>
    cases h
    exact .inl ⟨fun hn => he (List.isEmpty_iff.mpr hn), rfl, rfl⟩

/-- An evaluation that gives an object in any case leaves what a run leaves, and may have made one more object. -/
theorem evaluate_eq_some {object : Object} {middle : Session}
    (hr : session.run depth program = some (result, middle))
    (he : session.evaluate depth program = some (object, later)) :
    later = middle ∨ ∃ value, later = ⟨(middle.store.allocate value).2, middle.scope⟩ := by
  obtain ⟨ended, hp, -, hscope⟩ := run_eq_some_iff.mp hr
  obtain ⟨store, scope⟩ := middle
  obtain rfl : scope = session.scope := hscope
  unfold Session.evaluate at he
  rw [hp] at he
  cases ended with
  | ok value =>
    cases he
    exact .inl rfl
  | error failure =>
    cases he
    exact .inr ⟨.error failure, rfl⟩

end Session

end TinyScript
