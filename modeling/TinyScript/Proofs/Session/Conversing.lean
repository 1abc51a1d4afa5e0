import TinyScript.Dialogue
import TinyScript.Evaluation.Depth
import TinyScript.Proofs.Session.Ends

/-! # What is said in a dialogue

A dialogue as what is said to one line after another, without a bound on the depth of evaluation. To a blank line
nothing is said. To a line with syntax errors their messages are said, and the session stays as it was. To any other
line the text of what it gives is said, and the session is the one that evaluating it leaves.

One line at a time this is what a dialogue answers (`Dialogue.exists_answer_iff`). By induction on the lines **a dialogue
whose evaluations all come to an end says its greeting, then what is said to each line that is not blank, and then takes
its leave** (`Dialogue.exists_transcript_iff`).
-/

namespace TinyScript

variable {depth larger : Nat}

variable [ByteHash]

/-- A session that evaluates a text within a bound evaluates it alike within every larger one. -/
theorem Session.evaluate_eq_of_le (hle : depth ≤ larger) {session later : Session} {program : Program} {object : Object}
    (h : session.evaluate depth program = some (object, later)) :
    session.evaluate larger program = some (object, later) := by
  unfold Session.evaluate at h ⊢
  cases hr : Program.run depth session.scope program session.store with
  | none =>
    rw [hr] at h
    cases h
  | some outcome =>
    rw [hr] at h
    rw [Program.run_eq_of_le hle hr]
    exact h

namespace Dialogue

/-- A line, and what is said to it. -/
structure Exchange where
  line : String
  answer : String

/-- What is said to a line with syntax errors: the message of each, on a line of its own and after a tab. -/
def complaints (errors : List SyntaxError) : String :=
  Text.concatenated (errors.map fun error => "\t" ++ error.message ++ "\n")

/-- What is said to one line, if anything, and the session after it. -/
inductive Hears (session : Session) (line : String) : List Exchange → Session → Prop where
  | blank (hb : Text.isBlank line = true) : Hears session line [] session
  | malformed (hb : Text.isBlank line = false) (he : (Parse.ofSource line).errors ≠ []) :
      Hears session line [⟨line, complaints (Parse.ofSource line).errors⟩] session
  | evaluated (hb : Text.isBlank line = false) (he : (Parse.ofSource line).errors = []) {depth : Nat} {object : Object}
      {after : Session} (hr : session.evaluate depth (Parse.ofSource line).program = some (object, after)) :
      Hears session line [⟨line, object.render ++ "\n"⟩] after

/-- What is said to lines, one after another, and the session at the end. -/
inductive Converses : Session → List String → List Exchange → Session → Prop where
  | nil (session : Session) : Converses session [] [] session
  | cons {session middle last : Session} {line : String} {lines : List String} {said exchanges : List Exchange}
      (h : Hears session line said middle) (ht : Converses middle lines exchanges last) :
      Converses session (line :: lines) (said ++ exchanges) last

variable {session after last : Session} {line text : String} {lines : List String} {said exchanges : List Exchange}

/-! ## One line -/

omit [ByteHash] in
/-- A report is the complaints, each on a line of its own, less the last line break. -/
theorem report_eq_complaints {errors : List SyntaxError} (h : errors ≠ []) :
    SyntaxError.report errors ++ "\n" = complaints errors := by
  induction errors with
  | nil => exact absurd rfl h
  | cons error errors ih =>
    cases errors with
    | nil => simp [SyntaxError.report, complaints, Text.concatenated]
    | cons next errors =>
      have hn := ih (List.cons_ne_nil next errors)
      have hr : SyntaxError.report (error :: next :: errors) =
          "\t" ++ error.message ++ "\n" ++ SyntaxError.report (next :: errors) := rfl
      rw [hr, String.append_assoc, hn]
      rfl

/-- What is answered to a line within a bound is what is said to it. -/
theorem exists_answer_iff : (∃ depth, answer depth line session = some (text, after)) ↔
    ∃ said, Hears session line said after ∧ text = Text.concatenated (said.map Exchange.answer) := by
  constructor
  · rintro ⟨depth, h⟩
    unfold answer at h
    split at h
    · next hb =>
      cases h
      exact ⟨[], .blank hb, rfl⟩
    · next hb =>
      rw [Bool.not_eq_true] at hb
      dsimp only at h
      split at h
      · next he =>
        obtain ⟨⟨object, later⟩, hr, heq⟩ := Option.map_eq_some_iff.mp h
        cases heq
        exact ⟨_, .evaluated hb (List.isEmpty_iff.mp he) hr, (String.append_empty).symm⟩
      · next he =>
        have he : (Parse.ofSource line).errors ≠ [] := fun hn => he (List.isEmpty_iff.mpr hn)
        cases h
        refine ⟨_, .malformed hb he, ?_⟩
        rw [report_eq_complaints he]
        exact (String.append_empty).symm
  · rintro ⟨said, h, rfl⟩
    cases h with
    | blank hb => exact ⟨0, if_pos hb⟩
    | malformed hb he =>
      refine ⟨0, ?_⟩
      rw [answer, if_neg (by simp [hb]), if_neg (by simp [he]), report_eq_complaints he]
      simp [Text.concatenated]
    | @evaluated hb he depth object after hr =>
      refine ⟨depth, ?_⟩
      rw [answer, if_neg (by simp [hb]), if_pos (by simp [he]), hr]
      simp [Text.concatenated]

/-- Something is said to every line that is not blank, and to no other. -/
theorem Hears.map_line (h : Hears session line said after) :
    said.map Exchange.line = [line].filter fun line => !Text.isBlank line := by
  cases h with
  | blank hb => simp [hb]
  | malformed hb => simp [hb]
  | evaluated hb => simp [hb]

/-- What is said to a line, and the session after it, are settled by the session before. -/
theorem Hears.unique {said' : List Exchange} {after' : Session} (h : Hears session line said after)
    (h' : Hears session line said' after') : said = said' ∧ after = after' := by
  cases h with
  | blank hb =>
    cases h' with
    | blank => exact ⟨rfl, rfl⟩
    | malformed hb' | evaluated hb' => simp [hb] at hb'
  | malformed hb he =>
    cases h' with
    | blank hb' => simp [hb] at hb'
    | malformed => exact ⟨rfl, rfl⟩
    | evaluated _ he' => exact absurd he' he
  | @evaluated hb he depth object after hr =>
    cases h' with
    | blank hb' => simp [hb] at hb'
    | malformed _ he' => exact absurd he he'
    | @evaluated _ _ depth' object' after' hr' =>
      have hl := Session.evaluate_eq_of_le (Nat.le_max_left depth depth') hr
      have hl' := Session.evaluate_eq_of_le (Nat.le_max_right depth depth') hr'
      cases hl.symm.trans hl'
      exact ⟨rfl, rfl⟩

/-! ## All lines -/

/-- There is one exchange for every line that is not blank, in the order of the lines. -/
theorem Converses.map_line (h : Converses session lines exchanges last) :
    exchanges.map Exchange.line = lines.filter fun line => !Text.isBlank line := by
  induction h with
  | nil => rfl
  | @cons session middle last line lines said exchanges h _ ih =>
    rw [List.map_append, h.map_line, ih, ← List.filter_append]
    rfl

/-- A conversation is determined by the session and the lines. -/
theorem Converses.unique {exchanges' : List Exchange} {last' : Session} (h : Converses session lines exchanges last)
    (h' : Converses session lines exchanges' last') : exchanges = exchanges' ∧ last = last' := by
  induction h generalizing exchanges' with
  | nil =>
    cases h'
    exact ⟨rfl, rfl⟩
  | cons h _ ih =>
    cases h' with
    | cons h' ht' =>
      obtain ⟨rfl, rfl⟩ := h.unique h'
      obtain ⟨rfl, rfl⟩ := ih ht'
      exact ⟨rfl, rfl⟩

/-- An answer that is there within a bound stays within every larger one. -/
theorem answer_eq_of_le (hle : depth ≤ larger) (h : answer depth line session = some (text, after)) :
    answer larger line session = some (text, after) := by
  unfold answer at h ⊢
  split at h
  · next hb => rw [if_pos hb, h]
  · next hb =>
    rw [if_neg hb]
    dsimp only at h ⊢
    split at h
    · next he =>
      rw [if_pos he]
      obtain ⟨⟨object, later⟩, hr, heq⟩ := Option.map_eq_some_iff.mp h
      rw [Session.evaluate_eq_of_le hle hr]
      exact congrArg some heq
    · next he => rw [if_neg he, h]

/-- The answers are those to the first line and then, from the session after it, to the others. -/
theorem answers_cons_eq_some_iff {texts : List String} : answers depth (line :: lines) session = some texts ↔
    ∃ text after rest, answer depth line session = some (text, after) ∧ answers depth lines after = some rest ∧
      texts = text :: rest := by
  rw [answers]
  cases answer depth line session with
  | none => simp
  | some answered =>
    obtain ⟨text, after⟩ := answered
    simp only [Option.map_eq_some_iff, Option.some.injEq, Prod.mk.injEq]
    constructor
    · rintro ⟨rest, hr, rfl⟩
      exact ⟨text, after, rest, ⟨rfl, rfl⟩, hr, rfl⟩
    · rintro ⟨_, _, rest, ⟨rfl, rfl⟩, hr, rfl⟩
      exact ⟨rest, hr, rfl⟩

/-- So do the answers to any number of lines. -/
theorem answers_eq_of_le (hle : depth ≤ larger) {texts : List String}
    (h : answers depth lines session = some texts) : answers larger lines session = some texts := by
  induction lines generalizing session texts with
  | nil => exact h
  | cons line lines ih =>
    obtain ⟨text, after, rest, ha, hr, rfl⟩ := answers_cons_eq_some_iff.mp h
    exact answers_cons_eq_some_iff.mpr ⟨text, after, rest, answer_eq_of_le hle ha, ih hr, rfl⟩

/-- What is answered to lines within a bound is what is said to them. -/
theorem exists_answers_iff :
    (∃ depth texts, answers depth lines session = some texts ∧ Text.concatenated texts = text) ↔
      ∃ exchanges last, Converses session lines exchanges last ∧
        text = Text.concatenated (exchanges.map Exchange.answer) := by
  induction lines generalizing session text with
  | nil =>
    constructor
    · rintro ⟨depth, texts, h, rfl⟩
      cases h
      exact ⟨[], session, .nil session, rfl⟩
    · rintro ⟨exchanges, last, h, rfl⟩
      cases h
      exact ⟨0, [], rfl, rfl⟩
  | cons line lines ih =>
    constructor
    · rintro ⟨depth, texts, h, rfl⟩
      obtain ⟨first, after, rest, ha, hr, rfl⟩ := answers_cons_eq_some_iff.mp h
      obtain ⟨said, hsaid, rfl⟩ := exists_answer_iff.mp ⟨depth, ha⟩
      obtain ⟨exchanges, last, ht, he⟩ := ih.mp ⟨depth, rest, hr, rfl⟩
      refine ⟨said ++ exchanges, last, .cons hsaid ht, ?_⟩
      rw [Text.concatenated, he, List.map_append, Text.concatenated_append]
    · rintro ⟨_, last, h, rfl⟩
      cases h with
      | @cons _ middle _ _ _ said exchanges hsaid ht =>
        obtain ⟨depth, ha⟩ := exists_answer_iff.mpr ⟨said, hsaid, rfl⟩
        obtain ⟨depth', rest, hr, he⟩ := ih.mpr ⟨exchanges, last, ht, rfl⟩
        refine ⟨max depth depth', Text.concatenated (said.map Exchange.answer) :: rest, ?_, ?_⟩
        · exact answers_cons_eq_some_iff.mpr ⟨_, middle, rest, answer_eq_of_le (Nat.le_max_left depth depth') ha,
            answers_eq_of_le (Nat.le_max_right depth depth') hr, rfl⟩
        · rw [Text.concatenated, he, List.map_append, Text.concatenated_append]

/-- **All that a dialogue says**: its greeting, what is said to each line that is read, and its leave if all are.
It says so within some bound exactly if the evaluations of all these lines come to an end. -/
theorem exists_transcript_iff {heard : Heard} {said : Transcript} :
    (∃ depth, transcript depth heard = some said) ↔
      ∃ exchanges last, Converses .fresh heard.lines exchanges last ∧
        said.text = greeting ++ Text.concatenated (exchanges.map Exchange.answer) ++
          (if heard.complete then farewell else "") ∧
        said.complete = heard.complete := by
  constructor
  · rintro ⟨depth, h⟩
    obtain ⟨texts, ha, rfl⟩ := Option.map_eq_some_iff.mp h
    obtain ⟨exchanges, last, hc, he⟩ := exists_answers_iff.mp ⟨depth, texts, ha, rfl⟩
    exact ⟨exchanges, last, hc, by rw [← he], rfl⟩
  · rintro ⟨exchanges, last, hc, ht, hcomplete⟩
    obtain ⟨depth, texts, ha, he⟩ := exists_answers_iff.mpr ⟨exchanges, last, hc, rfl⟩
    refine ⟨depth, ?_⟩
    obtain ⟨text, complete⟩ := said
    rw [transcript]
    dsimp only at ht hcomplete ⊢
    rw [ha, ht, hcomplete, ← he]
    rfl

end Dialogue

end TinyScript
