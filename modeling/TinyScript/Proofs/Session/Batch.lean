import TinyScript.Evaluation.Depth
import TinyScript.Proofs.Evaluation.Writes
import TinyScript.Proofs.Layout.Insensitivity
import TinyScript.Proofs.Session.Joining
import TinyScript.Text.Fx

/-! # A session agrees with one text

A session runs its texts one after another, each read by itself and with lines that begin anew. Where each
text is complete and runs to its end, **the session ends as one text ends that is all of them, joined with
newlines** (`Session.Completes.interpret_joined`): both give values that look the same or both fail in the same
way, and both leave the same names bound to objects that look the same.

The joined text is read as the programs of the texts, lines aside, so the argument is about programs without
their lines: statements that are run to their end may be put before others (`Program.exists_run_append`).
-/

namespace TinyScript

open Evaluation

/-! ## Programs behind each other -/

section

variable [ByteHash]

/-- What statements give does not depend on what was given before them. -/
theorem Statement.runAll_eq_of_ne_nil {ss : List Statement} (h : ss ≠ []) (depth : Nat) (scope : Scope)
    (last other : Object) : Statement.runAll depth scope last ss = Statement.runAll depth scope other ss := by
  cases depth with
  | zero => rfl
  | succ depth =>
    cases ss with
    | nil => exact absurd rfl h
    | cons s ss => rfl

/-- Statements that are run to their end may be put before those that go on from there. -/
theorem Statement.exists_runAll_append {scope : Scope} {first second : List Statement} {depth deeper : Nat}
    {last object : Object} {store middle : Store} {completed : Completion Object × Store}
    (hf : Statement.runAll depth scope last first store = some (.normal object, middle))
    (hs : Statement.runAll deeper scope object second middle = some completed) :
    ∃ bound, Statement.runAll bound scope last (first ++ second) store = some completed := by
  refine ⟨_, Statement.bind_within_runAll_append scope last first second depth deeper store completed ?_⟩
  show Evaluation.bind _ _ store = some completed
  unfold Evaluation.bind
  rw [hf]
  exact hs

/-- A program that is run to its end may be put before one that goes on from there. -/
theorem Program.exists_run_append {scope : Scope} {first second : Program} {depth deeper : Nat}
    {object : Object} {store middle : Store} {outcome : Except Failure Object × Store}
    (hf : Statement.runAll depth scope .null first store = some (.normal object, middle))
    (hs : Program.run deeper scope second middle = some outcome) (hn : second ≠ []) :
    ∃ bound, Program.run bound scope (first ++ second) store = some outcome := by
  unfold Program.run at hs ⊢
  rw [Statement.runAll_eq_of_ne_nil hn deeper scope .null object] at hs
  cases hc : Statement.runAll deeper scope object second middle with
  | none =>
    rw [hc] at hs
    cases hs
  | some completed =>
    obtain ⟨bound, hb⟩ := Statement.exists_runAll_append hf hc
    rw [hc] at hs
    refine ⟨bound, ?_⟩
    rw [hb]
    exact hs

/-! ## Texts behind each other -/

/-- A text without a syntax error is run as its program. -/
theorem Session.interpret_eq_some_iff {source : String} (h : (Parse.ofSource source).errors = [])
    {depth : Nat} {session later : Session} {result : Result} :
    session.interpret depth source = some (result, later) ↔
      ∃ ended, Program.run depth session.scope (Parse.ofSource source).program session.store =
          some (ended, later.store) ∧ result = Result.ofEnd ended ∧ later.scope = session.scope := by
  have hi : session.interpret depth source = session.run depth (Parse.ofSource source).program := by
    have he : (Parse.ofSource source).errors.isEmpty = true := by
      rw [h]
      rfl
    exact if_pos he
  rw [hi]
  exact Session.run_eq_some_iff

/-- In the session the texts, all of them complete, run one after another to their ends: none is left by a
`return` and none fails. -/
inductive Session.Completes : List String → Session → Session → Prop where
  | nil (session : Session) : Session.Completes [] session session
  | cons {source : String} {sources : List String} {session middle later : Session} {depth : Nat}
      {object : Object} (complete : Parse.Complete source)
      (runs : session.interpret depth source = some (.value object, middle))
      (stays : ∀ returned after, Statement.runAll depth session.scope .null (Parse.ofSource source).program
        session.store ≠ some (.returned returned, after))
      (rest : Session.Completes sources middle later) : Session.Completes (source :: sources) session later

namespace Session.Completes

variable {source last : String} {sources : List String} {session middle later final : Session} {depth : Nat}

/-- Every text of a batch that completes is complete by itself. -/
theorem complete (h : Session.Completes sources session later) :
    ∀ source ∈ sources, Parse.Complete source := by
  induction h with
  | nil => exact fun _ hm => nomatch hm
  | cons complete _ _ _ ih =>
    intro source hm
    rcases List.mem_cons.mp hm with rfl | hm
    · exact complete
    · exact ih source hm

/-- A session stays in its scope. -/
theorem scope_eq (h : Session.Completes sources session later) : later.scope = session.scope := by
  induction h with
  | nil => rfl
  | cons complete runs _ _ ih =>
    obtain ⟨_, _, _, hs⟩ := (Session.interpret_eq_some_iff complete.errors_eq).mp runs
    exact ih.trans hs

/-- A text that gives a value and is not left by a `return` gives the value of its last statement. -/
theorem runAll_eq (hs : Parse.Complete source) {object : Object}
    (hr : session.interpret depth source = some (.value object, middle))
    (hn : ∀ returned after, Statement.runAll depth session.scope .null (Parse.ofSource source).program
      session.store ≠ some (.returned returned, after)) :
    Statement.runAll depth session.scope .null (Parse.ofSource source).program session.store =
      some (.normal object, middle.store) := by
  obtain ⟨ended, hp, he, _⟩ := (Session.interpret_eq_some_iff hs.errors_eq).mp hr
  unfold Program.run at hp
  split at hp
  · next value after hc =>
    cases hp
    cases he
    exact hc
  · next returned after hc => exact absurd hc (hn returned after)
  · cases hp
    cases he
  · cases hp

/-- What a program does after the texts, it does behind their programs. -/
theorem exists_run (h : Session.Completes sources session later) {program : Program}
    {outcome : Except Failure Object × Store} (hn : program ≠ [])
    (hr : Program.run depth later.scope program (later.store.relined fun _ => 0) = some outcome) :
    ∃ bound, Program.run bound session.scope (Parse.programs sources ++ program)
      (session.store.relined fun _ => 0) = some outcome := by
  induction h with
  | nil => exact ⟨depth, hr⟩
  | @cons source sources session middle later deep object complete runs stays rest ih =>
    obtain ⟨bound, hb⟩ := ih hr
    obtain ⟨_, _, _, hs⟩ := (Session.interpret_eq_some_iff complete.errors_eq).mp runs
    have hf := (relines (fun _ => 0) deep).runAll session.scope .null (Parse.ofSource source).program
      session.store
    rw [runAll_eq complete runs stays] at hf
    rw [hs] at hb
    have hne : Parse.programs sources ++ program ≠ [] := List.append_ne_nil_of_right_ne_nil _ hn
    show ∃ bound, Program.run bound session.scope
      (Statement.unlinedAll (Parse.ofSource source).program ++ Parse.programs sources ++ program) _ = _
    rw [List.append_assoc]
    exact Program.exists_run_append hf hb hne

/-- **A session of complete texts ends as the one text of them, joined with newlines**, lines aside: with a
value of one kind and one text or with the same failure, and with the same names bound, in every scope, to
objects of one kind and one text. -/
theorem interpret_joined {result : Result} (h : Session.Completes sources session later)
    (hl : Parse.Complete last) (hr : later.interpret depth last = some (result, final)) :
    ∃ bound result' final',
      session.interpret bound ("\n".intercalate (sources ++ [last])) = some (result', final') ∧
        result.Corresponds result' ∧ final'.scope = final.scope ∧
          ∀ id name, final'.store.face id name = final.store.face id name := by
  obtain ⟨ended, hp, rfl, hs⟩ := (Session.interpret_eq_some_iff hl.errors_eq).mp hr
  obtain ⟨he, hj⟩ := Parse.ofSource_joined h.complete hl.errors_eq
  -- the last text without its lines, from the store that the texts before it leave
  have hu := Program.run_relined (fun _ => 0) depth later.scope (Parse.ofSource last).program later.store
  rw [hp] at hu
  obtain ⟨bound, hb⟩ := h.exists_run hl.unlinedAll_ne_nil hu
  -- and the joined text without its lines, from the store of the beginning
  have hv := Program.run_relined (fun _ => 0) bound session.scope
    (Parse.ofSource ("\n".intercalate (sources ++ [last]))).program session.store
  have hq : Parse.programs sources ++ Statement.unlinedAll (Parse.ofSource last).program =
      Parse.programs (sources ++ [last]) := by
    unfold Parse.programs
    rw [List.flatMap_append, List.flatMap_singleton]
  rw [hq, ← hj] at hb
  obtain ⟨⟨ended', after⟩, hd, hm⟩ := Option.map_eq_some_iff.mp (hv.symm.trans hb)
  obtain ⟨hends, hstores⟩ := Prod.ext_iff.mp hm
  have hstores : after.relined (fun _ => 0) = final.store.relined fun _ => 0 := hstores
  refine ⟨bound, Result.ofEnd ended', ⟨after, session.scope⟩, ?_, Result.corresponds_ofEnd hends.symm, ?_, ?_⟩
  · exact (Session.interpret_eq_some_iff he).mpr ⟨ended', hd, rfl, rfl⟩
  · exact (hs.trans h.scope_eq).symm
  · intro id name
    rw [← Store.face_relined (f := fun _ => 0) after, hstores, Store.face_relined]

end Session.Completes

end

/-- A text that binds a function and ends in a comment, and a call of the function in a text behind it. -/
theorem Session.Completes.interpret_joined_call :
    let first := "let f = fn(x) \x7b x + 1 \x7d; // one more"
    let last := "f(2);"
    ∃ later result final, Session.Completes [first] Session.fresh later ∧
      later.interpret 20 last = some (result, final) ∧ result.render = "3" ∧
        ∃ bound result' final',
          Session.fresh.interpret bound ("\n".intercalate ([first] ++ [last])) = some (result', final') ∧
            result.Corresponds result' ∧ final'.scope = final.scope ∧
              ∀ id name, final'.store.face id name = final.store.face id name := by
  intro first last
  have hf : Parse.Complete first :=
    ⟨by decide +kernel, Option.map_eq_some_iff.mp (by decide +kernel : _ = some Token.Kind.semicolon)⟩
  have hl : Parse.Complete last :=
    ⟨by decide +kernel, Option.map_eq_some_iff.mp (by decide +kernel : _ = some Token.Kind.semicolon)⟩
  -- the normal way to complete is the one of index zero
  have hr : ((Statement.runAll 20 Session.fresh.scope .null (Parse.ofSource first).program
      Session.fresh.store).map fun r => (r.1.ctorIdx,
        (Session.interpret 20 last ⟨r.2, Session.fresh.scope⟩).map fun r => r.1.render)) =
      some (0, some "3") := by
    decide +kernel
  obtain ⟨⟨completion, middle⟩, hrun, hc⟩ := Option.map_eq_some_iff.mp hr
  obtain ⟨hn, ht⟩ := Prod.ext_iff.mp hc
  obtain ⟨⟨result, final⟩, hi, he⟩ := Option.map_eq_some_iff.mp ht
  cases completion with
  | normal object =>
    have hv : Session.fresh.interpret 20 first = some (.value object, ⟨middle, Session.fresh.scope⟩) :=
      (Session.interpret_eq_some_iff hf.errors_eq).mpr
        ⟨.ok object, by unfold Program.run; rw [hrun], rfl, rfl⟩
    have hs : ∀ returned after, Statement.runAll 20 Session.fresh.scope .null (Parse.ofSource first).program
        Session.fresh.store ≠ some (.returned returned, after) := by
      intro returned after h
      rw [hrun] at h
      cases h
    have h : Session.Completes [first] Session.fresh ⟨middle, Session.fresh.scope⟩ :=
      .cons hf hv hs (.nil _)
    exact ⟨_, result, final, h, hi, he, h.interpret_joined hl hi⟩
  | returned object => cases hn
  | failed failure => cases hn

end TinyScript
