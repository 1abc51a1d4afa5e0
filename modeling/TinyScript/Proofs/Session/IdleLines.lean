import TinyScript.Proofs.Evaluation.Places
import TinyScript.Proofs.Session.Conversing
import TinyScript.Text.Fx

/-! # Lines that are as if never typed

In a dialogue a line that is blank or has syntax errors is **idle**: the session after it is the one before it. So idle
lines may be put in or left out at any places, and what is said to the other lines stays the same, as does the session
at the end (`Dialogue.Converses.put_in`, `Dialogue.Converses.leave_out`).

A line that fails while it runs is not idle. The session that comes after it has the bindings that the place of the
failure left: all that were there when evaluation came to that place, the failing part having changed at most those that
it binds itself (`Dialogue.FailsAt.converses_iff`, `Dialogue.FailsAt.kept`).
-/

namespace TinyScript

open Evaluation (Completes)

/-! ## Lists with more in them -/

/-- The second list is the first one with elements of some kind put in at any places. -/
inductive Interspersed {α : Type} (spare : α → Prop) : List α → List α → Prop where
  | nil : Interspersed spare [] []
  | keep (a : α) {l l' : List α} (h : Interspersed spare l l') : Interspersed spare (a :: l) (a :: l')
  | put {a : α} (ha : spare a) {l l' : List α} (h : Interspersed spare l l') : Interspersed spare l (a :: l')

section Interspersed

variable {α : Type} {spare : α → Prop} {l l' : List α}

theorem Interspersed.append_left (shared : List α) (h : Interspersed spare l l') :
    Interspersed spare (shared ++ l) (shared ++ l') := by
  induction shared with
  | nil => exact h
  | cons a shared ih => exact .keep a ih

/-- Any number of spare elements may be put in front. -/
theorem Interspersed.put_all {more : List α} (hm : ∀ a ∈ more, spare a) (h : Interspersed spare l l') :
    Interspersed spare l (more ++ l') := by
  induction more with
  | nil => exact h
  | cons a more ih => exact .put (hm a List.mem_cons_self) (ih fun b hb => hm b (List.mem_cons_of_mem a hb))

end Interspersed

namespace Dialogue

variable {session after last : Session} {line : String} {lines lines' : List String}
  {said exchanges exchanges' : List Exchange}

/-! ## Idle lines -/

/-- A line that is blank or has syntax errors. -/
def Idle (line : String) : Prop :=
  Text.isBlank line = true ∨ (Parse.ofSource line).errors ≠ []

section

variable [ByteHash]

/-- An idle line leaves the session as it is. -/
theorem Idle.hears (h : Idle line) (session : Session) :
    ∃ said, Hears session line said session ∧ ∀ exchange ∈ said, Idle exchange.line := by
  cases hb : Text.isBlank line with
  | true => exact ⟨[], .blank hb, by simp⟩
  | false =>
    have he : (Parse.ofSource line).errors ≠ [] := by
      rcases h with hb' | he
      · rw [hb] at hb'
        cases hb'
      · exact he
    refine ⟨_, .malformed hb he, ?_⟩
    intro exchange hm
    rw [List.mem_singleton.mp hm]
    exact .inr he

/-- An idle line leaves the session as it is and leads to idle exchanges alone. -/
theorem Idle.of_hears (h : Idle line) (hh : Hears session line said after) :
    after = session ∧ ∀ exchange ∈ said, Idle exchange.line := by
  obtain ⟨said', hh', hi⟩ := h.hears session
  obtain ⟨rfl, rfl⟩ := hh.unique hh'
  exact ⟨rfl, hi⟩

/-- Idle lines may be put in at any places. -/
theorem Converses.put_in (hi : Interspersed Idle lines lines') (h : Converses session lines exchanges last) :
    ∃ exchanges', Converses session lines' exchanges' last ∧
      Interspersed (fun exchange => Idle exchange.line) exchanges exchanges' := by
  induction hi generalizing session exchanges with
  | nil =>
    cases h
    exact ⟨[], .nil _, .nil⟩
  | keep line _ ih =>
    cases h with
    | @cons _ _ _ _ _ said _ hh ht =>
      obtain ⟨exchanges', hc, he⟩ := ih ht
      exact ⟨said ++ exchanges', .cons hh hc, he.append_left said⟩
  | put ha _ ih =>
    obtain ⟨exchanges', hc, he⟩ := ih h
    obtain ⟨said, hh, hs⟩ := ha.hears session
    exact ⟨said ++ exchanges', .cons hh hc, he.put_all hs⟩

/-- Idle lines may be left out at any places. -/
theorem Converses.leave_out (hi : Interspersed Idle lines lines') (h : Converses session lines' exchanges' last) :
    ∃ exchanges, Converses session lines exchanges last ∧
      Interspersed (fun exchange => Idle exchange.line) exchanges exchanges' := by
  induction hi generalizing session exchanges' with
  | nil =>
    cases h
    exact ⟨[], .nil _, .nil⟩
  | keep line _ ih =>
    cases h with
    | @cons _ _ _ _ _ said _ hh ht =>
      obtain ⟨exchanges, hc, he⟩ := ih ht
      exact ⟨said ++ exchanges, .cons hh hc, he.append_left said⟩
  | put ha _ ih =>
    cases h with
    | cons hh ht =>
      obtain ⟨rfl, hs⟩ := ha.of_hears hh
      obtain ⟨exchanges, hc, he⟩ := ih ht
      exact ⟨exchanges, hc, he.put_all hs⟩

/-! ## Lines that fail -/

/-- A line is read without error, and evaluation comes to a place in it, with the store `reached`. What stands there
fails, with the store `after`. -/
structure FailsAt (session : Session) (line : String) (part : Part) (term : part.Term) (reached after : Store)
    (failure : Failure) : Prop where
  notBlank : Text.isBlank line = false
  errors_eq : (Parse.ofSource line).errors = []
  place : ∃ (context : Context part .statements) (rest : context.Rest),
    (Parse.ofSource line).program = context.fill rest term ∧ context.Reaches session.scope session.store reached
  fails : Completes (part.eval · session.scope term) reached (.failed failure) after

/-- What is said to a line that fails. -/
def failureText (failure : Failure) : String :=
  "ERROR line " ++ Nat.repr failure.line ++ ": " ++ failure.fault.detail ++ "\n"

/-- The session after a line that fails: the bindings are those that the failure left. -/
def afterFailure (session : Session) (after : Store) : Session :=
  ⟨⟨after.bindings, after.nextId + 1⟩, session.scope⟩

variable {part : Part} {term : part.Term} {reached store : Store} {failure : Failure}

/-- A line whose program fails is answered with the failure, and the session goes on with what it bound. -/
theorem hears_of_run_failed (hb : Text.isBlank line = false) (he : (Parse.ofSource line).errors = []) {depth : Nat}
    (hr : Program.run depth session.scope (Parse.ofSource line).program session.store = some (.error failure, store)) :
    Hears session line [⟨line, failureText failure⟩] (afterFailure session store) := by
  have hev : session.evaluate depth (Parse.ofSource line).program =
      some (⟨store.nextId, .error failure⟩, afterFailure session store) := by
    unfold Session.evaluate
    rw [hr]
    rfl
  exact .evaluated hb he hev

/-- A line that fails is answered with its failure, and its bindings are kept. -/
theorem FailsAt.hears (h : FailsAt session line part term reached store failure) :
    Hears session line [⟨line, failureText failure⟩] (afterFailure session store) := by
  obtain ⟨context, rest, hp, hr⟩ := h.place
  have hw : Completes (Part.statements.eval · session.scope (context.fill rest term)) session.store
      (Abrupt.failed failure).completion store := context.passes rest hr h.fails
  obtain ⟨depth, hd⟩ := Program.exists_run_of_abrupt hw
  exact hears_of_run_failed h.notBlank h.errors_eq (hp ▸ hd)

/-- The lines behind a line that fails are answered in the session that the failure left. -/
theorem FailsAt.converses_iff (h : FailsAt session line part term reached store failure) :
    Converses session (line :: lines) exchanges last ↔
      ∃ others, exchanges = ⟨line, failureText failure⟩ :: others ∧
        Converses (afterFailure session store) lines others last := by
  constructor
  · intro hc
    cases hc with
    | @cons _ _ _ _ _ _ others hh ht =>
      obtain ⟨rfl, rfl⟩ := hh.unique h.hears
      exact ⟨others, rfl, ht⟩
  · rintro ⟨others, rfl, ht⟩
    exact .cons h.hears ht

/-- In a dialogue the session stays in a scope that there is, around which there is none. -/
theorem Hears.root (h : Hears session line said after) (hs : session.scope = .root 0)
    (hsize : 0 < session.store.bindings.size) : after.scope = .root 0 ∧ 0 < after.store.bindings.size := by
  cases h with
  | blank => exact ⟨hs, hsize⟩
  | malformed => exact ⟨hs, hsize⟩
  | @evaluated _ _ depth object _ hr =>
    have hgrows : ∀ ended store, Program.run depth session.scope (Parse.ofSource line).program session.store =
        some (ended, store) → 0 < store.bindings.size := by
      intro ended store hp
      obtain ⟨completion, hc, -⟩ := Program.exists_completion hp
      have hid : session.scope.id < session.store.bindings.size := by rwa [hs]
      exact Nat.lt_of_lt_of_le hsize ((evalWrites depth).runAll _ _ _ _ _ _ hid hc).size_le
    unfold Session.evaluate at hr
    split at hr
    · next value store hp =>
      cases hr
      exact ⟨hs, hgrows _ _ hp⟩
    · next failure store hp =>
      have hgrown := hgrows _ _ hp
      cases hr
      exact ⟨hs, hgrown⟩
    · cases hr

/-- The session stays in the outermost scope, which exists throughout. -/
theorem Converses.root (h : Converses session lines exchanges last) (hs : session.scope = .root 0)
    (hsize : 0 < session.store.bindings.size) : last.scope = .root 0 ∧ 0 < last.store.bindings.size := by
  induction h with
  | nil => exact ⟨hs, hsize⟩
  | cons h _ ih =>
    obtain ⟨hs', hsize'⟩ := h.root hs hsize
    exact ih hs' hsize'

/-- What was bound when evaluation came to the place of the failure is bound for the lines behind, to the same object
unless the failing part binds the name itself; and that part alone has bound anything since. -/
theorem FailsAt.kept (h : FailsAt session line part term reached store failure) (hs : session.scope = .root 0)
    (hsize : 0 < session.store.bindings.size) (name : String) :
    ((reached.get? session.scope name).isSome → ((afterFailure session store).get? name).isSome) ∧
      (name ∉ part.letNames term → (afterFailure session store).get? name = reached.get? session.scope name) := by
  obtain ⟨context, rest, -, hr⟩ := h.place
  have hf := h.fails
  unfold Session.get? afterFailure
  rw [hs] at hr hf ⊢
  have hw := Part.writesOnly hf (Nat.lt_of_lt_of_le hsize (hr.size_le hsize))
  exact ⟨hw.isSome name, hw.find?_eq name⟩

/-- A line that fails has a statement that fails, those before it having been run to their ends. -/
theorem exists_failsAt (hb : Text.isBlank line = false) (he : (Parse.ofSource line).errors = []) {depth : Nat}
    (hr : Program.run depth session.scope (Parse.ofSource line).program session.store = some (.error failure, store)) :
    ∃ statement reached, FailsAt session line .statement statement reached store failure := by
  obtain ⟨completion, hc, hended⟩ := Program.exists_completion hr
  obtain rfl := Completion.eq_of_ended_error hended
  obtain ⟨before, statement, behind, object, reached, hp, hbefore, hf⟩ := Statement.exists_of_runAll_failed hc
  have hplace : (Context.within (.among before) .hole : Context .statement .statements).Reaches session.scope
      session.store reached := ⟨reached, ⟨object, hbefore⟩, rfl⟩
  exact ⟨statement, reached, hb, he, ⟨.within (.among before) .hole, ((), behind), hp, hplace⟩, hf⟩

/-- **In a dialogue blank lines and lines with syntax errors are as if never typed.** A dialogue whose evaluations come
to an end says its greeting, then what is said to each line that is not blank, in their order, then its leave if its
input was read to the end. Where idle lines are put in or left out, nothing that is said to the other lines changes, and
the session at the end is the same. A line that fails is another matter. It is answered with the failure, and the lines
behind it find what was bound when evaluation came to the place of the failure: every failing line has such a place. -/
theorem transcript_of_lines :
    (∀ (heard : Heard) (said : Transcript), (∃ depth, transcript depth heard = some said) ↔
      ∃ exchanges last, Converses .fresh heard.lines exchanges last ∧
        said.text = greeting ++ Text.concatenated (exchanges.map Exchange.answer) ++
          (if heard.complete then farewell else "") ∧
        said.complete = heard.complete) ∧
    (∀ {session last : Session} {lines : List String} {exchanges : List Exchange},
      Converses session lines exchanges last →
        exchanges.map Exchange.line = (lines.filter fun line => !Text.isBlank line) ∧
          ∀ exchanges' last', Converses session lines exchanges' last' → exchanges = exchanges' ∧ last = last') ∧
    (∀ {lines lines' : List String}, Interspersed Idle lines lines' → ∀ session last : Session,
      (∀ exchanges, Converses session lines exchanges last → ∃ exchanges', Converses session lines' exchanges' last ∧
        Interspersed (fun exchange => Idle exchange.line) exchanges exchanges') ∧
      ∀ exchanges', Converses session lines' exchanges' last → ∃ exchanges, Converses session lines exchanges last ∧
        Interspersed (fun exchange => Idle exchange.line) exchanges exchanges') ∧
    (∀ {earlier : List String} {before : List Exchange} {session : Session},
      Converses .fresh earlier before session → ∀ {line part term reached store failure},
        FailsAt session line part term reached store failure →
          (∀ lines exchanges last, Converses session (line :: lines) exchanges last ↔
            ∃ others, exchanges = ⟨line, failureText failure⟩ :: others ∧
              Converses (afterFailure session store) lines others last) ∧
          ∀ name, ((reached.get? session.scope name).isSome → ((afterFailure session store).get? name).isSome) ∧
            (name ∉ part.letNames term →
              (afterFailure session store).get? name = reached.get? session.scope name)) ∧
    ∀ {session : Session} {line : String} {depth : Nat} {store : Store} {failure : Failure},
      Text.isBlank line = false → (Parse.ofSource line).errors = [] →
        Program.run depth session.scope (Parse.ofSource line).program session.store = some (.error failure, store) →
          ∃ statement reached, FailsAt session line .statement statement reached store failure := by
  refine ⟨fun _ _ => exists_transcript_iff, ?_, ?_, ?_, fun hb he hr => exists_failsAt hb he hr⟩
  · intro session last lines exchanges h
    exact ⟨h.map_line, fun _ _ => h.unique⟩
  · intro lines lines' hi session last
    exact ⟨fun _ h => h.put_in hi, fun _ h => h.leave_out hi⟩
  · intro earlier before session h line part term reached store failure hf
    obtain ⟨hs, hsize⟩ := h.root rfl (by decide)
    exact ⟨fun _ _ _ => hf.converses_iff, hf.kept hs hsize⟩

end

/-- Two lines of which the first binds a name and fails, with a blank line and one with a syntax error between them or
without. -/
theorem transcript_of_lines_failing :
    let failing := "let a = 1; -true"
    let lines := [failing, "a"]
    let text := greeting ++ "ERROR line 1: unknown operator: -BOOLEAN\n" ++ "1\n" ++ farewell
    transcript 20 ⟨lines, true⟩ = some ⟨text, true⟩ ∧ Interspersed Idle lines [failing, " ", "let = ", "a"] ∧
      ∃ exchanges last, Converses .fresh lines exchanges last ∧ exchanges.map Exchange.line = lines ∧
        (∃ exchanges', Converses .fresh [failing, " ", "let = ", "a"] exchanges' last ∧
          Interspersed (fun exchange => Idle exchange.line) exchanges exchanges') ∧
        ∃ statement reached store failure, FailsAt .fresh failing .statement statement reached store failure ∧
          (∃ others, exchanges = ⟨failing, failureText failure⟩ :: others ∧
            Converses (afterFailure .fresh store) ["a"] others last) ∧
          ∀ name, (reached.get? (.root 0) name).isSome → ((afterFailure .fresh store).get? name).isSome := by
  intro failing lines text
  obtain ⟨transcribed, settled, interspersed, failed, place⟩ := transcript_of_lines
  have ht : transcript 20 ⟨lines, true⟩ = some ⟨text, true⟩ := by decide +kernel
  obtain ⟨exchanges, last, hc, -, -⟩ := (transcribed _ _).mp ⟨20, ht⟩
  have hi : Interspersed Idle lines [failing, " ", "let = ", "a"] := by
    have hblank : Idle " " := .inl (by decide)
    have hmalformed : Idle "let = " := .inr (by decide +kernel)
    exact .keep failing (.put hblank (.put hmalformed (.keep "a" .nil)))
  have hrun : ((Program.run 20 Session.fresh.scope (Parse.ofSource failing).program Session.fresh.store).map
      fun outcome => outcome.1.toBool) = some false := by
    decide +kernel
  obtain ⟨⟨ended, store⟩, hr, he⟩ := Option.map_eq_some_iff.mp hrun
  cases ended with
  | ok object => cases he
  | error failure =>
    obtain ⟨statement, reached, hf⟩ := place (by decide) (by decide +kernel) hr
    obtain ⟨behind, kept⟩ := failed (.nil .fresh) hf
    refine ⟨ht, hi, exchanges, last, hc, ?_, (interspersed hi .fresh last).1 exchanges hc, ?_⟩
    · rw [(settled hc).1]
      decide
    · exact ⟨statement, reached, store, failure, hf, (behind _ _ _).mp hc, fun name => (kept name).1⟩

end Dialogue

end TinyScript
