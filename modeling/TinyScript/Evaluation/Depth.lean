import TinyScript.Evaluation.Program

/-! # More depth changes no completion

Evaluation carries a bound on the depth of calls. The main statement is `Program.run_eq_of_le`: a program
that completes within one bound completes alike within every larger one, so what a program does is a
matter of the program and the store alone, and the bound only says how long one is willing to wait.

The proof compares evaluations by what they complete with. `first.Within second` says that `second`
completes as `first` does wherever `first` completes at all. Statements that are run in two parts are compared
with all of them so: the parts within two bounds with the whole within their sum, and the whole with the parts
within its own bound.
-/

namespace TinyScript

namespace Evaluation

variable {α β : Type}

/-- Wherever the first evaluation completes, the second one completes alike. -/
def Within (first second : Evaluation α) : Prop :=
  ∀ store outcome, first store = some outcome → second store = some outcome

theorem within_refl (evaluation : Evaluation α) : evaluation.Within evaluation :=
  fun _ _ h => h

theorem Within.trans {first second third : Evaluation α} (h : first.Within second)
    (h' : second.Within third) : first.Within third :=
  fun store outcome ho => h' store outcome (h store outcome ho)

/-- What meets its bound completes with nothing, so anything completes as it does. -/
theorem exhausted_within (evaluation : Evaluation α) : exhausted.Within evaluation :=
  fun _ _ h => nomatch h

/-- Sequences compare as their parts do. -/
theorem Within.bind {first second : Evaluation α} {next later : α → Evaluation β}
    (h : first.Within second) (hn : ∀ value, (next value).Within (later value)) :
    (first >>= next).Within (second >>= later) := by
  intro store outcome ho
  have ho' : Evaluation.bind first next store = some outcome := ho
  show Evaluation.bind second later store = some outcome
  unfold Evaluation.bind at ho' ⊢
  cases hf : first store with
  | none => rw [hf] at ho'; cases ho'
  | some completed =>
    obtain ⟨completion, after⟩ := completed
    rw [hf] at ho'
    rw [h store _ hf]
    cases completion with
    | normal value => exact hn value after outcome ho'
    | returned value => exact ho'
    | failed failure => exact ho'

/-- Of three parts in sequence, it does not matter which two are put together first. -/
theorem bind_assoc {γ : Type} (first : Evaluation α) (next : α → Evaluation β) (later : β → Evaluation γ) :
    first >>= next >>= later = first >>= fun value => next value >>= later := by
  funext store
  show Evaluation.bind (Evaluation.bind first next) later store =
    Evaluation.bind first (fun value => Evaluation.bind (next value) later) store
  unfold Evaluation.bind
  cases first store with
  | none => rfl
  | some completed =>
    obtain ⟨completion, after⟩ := completed
    cases completion <;> rfl

/-- Catching a `return` keeps the comparison. -/
theorem Within.catchReturn {first second : Evaluation Object} (h : first.Within second) :
    first.catchReturn.Within second.catchReturn := by
  intro store outcome ho
  unfold Evaluation.catchReturn at ho ⊢
  cases hf : first store with
  | none => rw [hf] at ho; cases ho
  | some completed =>
    rw [hf] at ho
    rw [h store completed hf]
    exact ho

end Evaluation

open Evaluation

/-- What holds step by step holds of all larger bounds. -/
theorem Evaluation.within_of_le {α : Type} {evaluation : Nat → Evaluation α}
    (h : ∀ depth, (evaluation depth).Within (evaluation (depth + 1))) {depth larger : Nat}
    (hle : depth ≤ larger) : (evaluation depth).Within (evaluation larger) := by
  induction hle with
  | refl => exact within_refl _
  | step _ ih => exact ih.trans (h _)

variable [ByteHash]

/-- One more call of depth keeps every completion, function by function. -/
structure Deepens (depth : Nat) : Prop where
  eval : ∀ scope e, (Expr.eval depth scope e).Within (Expr.eval (depth + 1) scope e)
  evalAll : ∀ scope es, (Expr.evalAll depth scope es).Within (Expr.evalAll (depth + 1) scope es)
  evalEntries : ∀ scope held entries,
    (Expr.evalEntries depth scope held entries).Within (Expr.evalEntries (depth + 1) scope held entries)
  run : ∀ scope s, (Statement.run depth scope s).Within (Statement.run (depth + 1) scope s)
  runAll : ∀ scope last ss,
    (Statement.runAll depth scope last ss).Within (Statement.runAll (depth + 1) scope last ss)
  call : ∀ callee arguments line,
    (Object.call depth callee arguments line).Within (Object.call (depth + 1) callee arguments line)

namespace Deepens

variable {depth : Nat}

/-- The parts of an expression are evaluated within the bound that is raised. -/
theorem eval_succ (d : Deepens depth) (scope : Scope) (e : Expr) :
    (Expr.eval (depth + 1) scope e).Within (Expr.eval (depth + 2) scope e) := by
  cases e with
  | ident => exact within_refl _
  | number => exact within_refl _
  | boolean => exact within_refl _
  | string => exact within_refl _
  | function => exact within_refl _
  | array elements => exact (d.evalAll scope elements).bind fun _ => within_refl _
  | hash entries => exact (d.evalEntries scope [] entries).bind fun _ => within_refl _
  | unary _ operand => exact (d.eval scope operand).bind fun _ => within_refl _
  | binary _ left right =>
    exact (d.eval scope left).bind fun _ => (d.eval scope right).bind fun _ => within_refl _
  | conditional condition consequence alternative =>
    refine (d.eval scope condition).bind fun object => ?_
    cases object.value.truthy with
    | true => exact d.runAll scope .null consequence.statements
    | false =>
      cases alternative with
      | none => exact within_refl _
      | some body => exact d.runAll scope .null body.statements
  | call callee arguments line =>
    exact (d.eval scope callee).bind fun function =>
      (d.evalAll scope arguments).bind fun objects => d.call function objects line
  | index collection position =>
    exact (d.eval scope collection).bind fun _ => (d.eval scope position).bind fun _ => within_refl _

theorem evalAll_succ (d : Deepens depth) (scope : Scope) (es : List Expr) :
    (Expr.evalAll (depth + 1) scope es).Within (Expr.evalAll (depth + 2) scope es) := by
  cases es with
  | nil => exact within_refl _
  | cons e es =>
    exact (d.eval scope e).bind fun _ => (d.evalAll scope es).bind fun _ => within_refl _

/-- Between a key and its value there is only the look at whether it can be a key, which takes no bound. -/
theorem evalEntries_succ (d : Deepens depth) (scope : Scope) (held : List (Key × Object × Object))
    (entries : List (Expr × Expr)) :
    (Expr.evalEntries (depth + 1) scope held entries).Within
      (Expr.evalEntries (depth + 2) scope held entries) := by
  cases entries with
  | nil => exact within_refl _
  | cons entry entries =>
    exact (d.eval scope entry.1).bind fun _ => (within_refl _).bind fun _ =>
      (d.eval scope entry.2).bind fun _ => d.evalEntries scope _ entries

/-- A statement hands its bound on to an expression or to the statements of a block. -/
theorem run_succ (d : Deepens depth) (scope : Scope) (s : Statement) :
    (Statement.run (depth + 1) scope s).Within (Statement.run (depth + 2) scope s) := by
  cases s with
  | bind _ value => exact (d.eval scope value).bind fun _ => within_refl _
  | leave value =>
    cases value with
    | none => exact within_refl _
    | some value => exact (d.eval scope value).bind fun _ => within_refl _
  | expression value => exact d.eval scope value
  | block body => exact d.runAll scope .null body.statements

theorem runAll_succ (d : Deepens depth) (scope : Scope) (last : Object) (ss : List Statement) :
    (Statement.runAll (depth + 1) scope last ss).Within
      (Statement.runAll (depth + 2) scope last ss) := by
  cases ss with
  | nil => exact within_refl _
  | cons s ss => exact (d.run scope s).bind fun object => d.runAll scope object ss

/-- A call opens its scope whatever the bound is, and runs the body within the bound that is raised. -/
theorem call_succ (d : Deepens depth) (callee : Object) (arguments : List Object) (line : Nat) :
    (Object.call (depth + 1) callee arguments line).Within
      (Object.call (depth + 2) callee arguments line) := by
  unfold Object.call
  split
  · split
    · exact (within_refl _).bind fun inner => (d.runAll inner .null _).catchReturn
    · exact within_refl _
  · exact within_refl _
  · exact within_refl _

end Deepens

/-- Every bound may be raised by one. -/
theorem deepens (depth : Nat) : Deepens depth := by
  induction depth with
  | zero => constructor <;> intros <;> exact exhausted_within _
  | succ depth d =>
    exact {
      eval := d.eval_succ
      evalAll := d.evalAll_succ
      evalEntries := d.evalEntries_succ
      run := d.run_succ
      runAll := d.runAll_succ
      call := d.call_succ }

variable {depth larger : Nat}

/-- An expression keeps its completions within a larger bound. -/
theorem Expr.eval_within (h : depth ≤ larger) (scope : Scope) (e : Expr) :
    (Expr.eval depth scope e).Within (Expr.eval larger scope e) :=
  within_of_le (fun depth => (deepens depth).eval scope e) h

theorem Expr.evalAll_within (h : depth ≤ larger) (scope : Scope) (es : List Expr) :
    (Expr.evalAll depth scope es).Within (Expr.evalAll larger scope es) :=
  within_of_le (fun depth => (deepens depth).evalAll scope es) h

theorem Expr.evalEntries_within (h : depth ≤ larger) (scope : Scope)
    (held : List (Key × Object × Object)) (entries : List (Expr × Expr)) :
    (Expr.evalEntries depth scope held entries).Within (Expr.evalEntries larger scope held entries) :=
  within_of_le (fun depth => (deepens depth).evalEntries scope held entries) h

/-- A statement keeps its completions within a larger bound. -/
theorem Statement.run_within (h : depth ≤ larger) (scope : Scope) (s : Statement) :
    (Statement.run depth scope s).Within (Statement.run larger scope s) :=
  within_of_le (fun depth => (deepens depth).run scope s) h

/-- Statements keep their completions within a larger bound. -/
theorem Statement.runAll_within (h : depth ≤ larger) (scope : Scope) (last : Object)
    (ss : List Statement) :
    (Statement.runAll depth scope last ss).Within (Statement.runAll larger scope last ss) :=
  within_of_le (fun depth => (deepens depth).runAll scope last ss) h

/-- A call keeps its completions within a larger bound. -/
theorem Object.call_within (h : depth ≤ larger) (callee : Object) (arguments : List Object)
    (line : Nat) :
    (Object.call depth callee arguments line).Within (Object.call larger callee arguments line) :=
  within_of_le (fun depth => (deepens depth).call callee arguments line) h

namespace Statement

variable (scope : Scope) (last : Object) (ss others : List Statement)

/-- Statements may be put before others that go on from there. -/
theorem bind_within_runAll_append (depth deeper : Nat) :
    (runAll depth scope last ss >>= fun object => runAll deeper scope object others).Within
      (runAll (depth + deeper) scope last (ss ++ others)) := by
  induction ss generalizing depth last with
  | nil =>
    cases depth with
    | zero => exact exhausted_within _
    | succ depth => exact runAll_within (Nat.le_add_left deeper (depth + 1)) scope last others
  | cons s ss ih =>
    cases depth with
    | zero => exact exhausted_within _
    | succ depth =>
      have hb : runAll (depth + 1) scope last (s :: ss) >>= (fun object => runAll deeper scope object others) =
          run depth scope s >>= fun object =>
            runAll depth scope object ss >>= fun object => runAll deeper scope object others :=
        bind_assoc (run depth scope s) (runAll depth scope · ss) _
      rw [hb, Nat.add_right_comm]
      exact (run_within (Nat.le_add_right depth deeper) scope s).bind fun object => ih object depth

/-- Statements are run in two parts within the same bound. -/
theorem runAll_append_within_bind (depth : Nat) :
    (runAll depth scope last (ss ++ others)).Within
      (runAll depth scope last ss >>= fun object => runAll depth scope object others) := by
  induction ss generalizing depth last with
  | nil =>
    cases depth with
    | zero => exact exhausted_within _
    | succ depth => exact within_refl _
  | cons s ss ih =>
    cases depth with
    | zero => exact exhausted_within _
    | succ depth =>
      have hb : runAll (depth + 1) scope last (s :: ss) >>= (fun object => runAll (depth + 1) scope object others) =
          run depth scope s >>= fun object =>
            runAll depth scope object ss >>= fun object => runAll (depth + 1) scope object others :=
        bind_assoc (run depth scope s) (runAll depth scope · ss) _
      rw [hb]
      refine (within_refl (run depth scope s)).bind fun object => (ih object depth).trans ?_
      exact (within_refl _).bind fun object => runAll_within (Nat.le_succ depth) scope object others

end Statement

/-- **A program that completes within a bound completes alike within every larger one.** -/
theorem Program.run_eq_of_le (hle : depth ≤ larger) {scope : Scope} {program : Program} {store : Store}
    {outcome : Except Failure Object × Store} (h : Program.run depth scope program store = some outcome) :
    Program.run larger scope program store = some outcome := by
  unfold Program.run at h ⊢
  cases hr : Statement.runAll depth scope .null program store with
  | none => rw [hr] at h; cases h
  | some completed =>
    rw [hr] at h
    rw [Statement.runAll_within hle scope .null program store completed hr]
    exact h

end TinyScript
