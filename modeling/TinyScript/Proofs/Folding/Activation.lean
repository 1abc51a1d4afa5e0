import TinyScript.Proofs.Collection.Sequence
import TinyScript.Proofs.Evaluation.Rules
import TinyScript.Proofs.Folding.Source
import TinyScript.Proofs.Number.Lengths
import TinyScript.Proofs.Scope.History

/-! # An activation of the fold

The inner function of `reduce` is called once for each element and once more for the empty array. Such a call finds the
array and what has been made so far in its own scope, the function that is folded with and itself in the scope around,
and the builtin functions nowhere. **It calls the function with what has been made and the first element, and then
itself** (`Fold.completes_iter_cons_iff`), or gives what has been made (`Fold.completes_iter_nil_iff`).

What the scopes around have to bind is `Fold.Around`. No call touches them, so it holds in each activation if it holds
in the first (`Fold.Around.untouched`).
-/

namespace TinyScript

open Evaluation

/-- A fold at work: the array of what is to come, what has been made of what came, and the store. -/
structure Fold where
  array : Object
  value : Object
  store : Store

namespace Fold

/-- The store within an activation, when so many objects have been made there. -/
def entered (fold : Fold) (made : Nat) : Store :=
  fold.store.opened [("arr", fold.array), ("result", fold.value)] made

/-- The scope of an activation. -/
abbrev inner (fold : Fold) (outer : Scope) : Scope := .enclosed fold.store.bindings.size outer

/-- The array that an activation makes of the elements behind the first. -/
def tail (fold : Fold) (xs : List Object) : Object := ⟨fold.store.nextId + 4, .array xs⟩

/-- What an activation ends as. -/
def branch (xs : List Object) : Expr := if xs = [] then .ident ⟨"result", 5⟩ else again

/-- What the scopes around an activation bind. -/
structure Around (outer : Scope) (f iter : Object) (store : Store) : Prop where
  id_lt : ∀ around ∈ outer.around, around.id < store.bindings.size
  f : store.get? outer "f" = some f
  iter : store.get? outer "iter" = some iter
  builtin : ∀ builtin ∈ [Builtin.len, .first, .rest], store.get? outer builtin.name = none

variable {outer : Scope} {f iter : Object} {fold : Fold} {made line : Nat} {name : String} {x : Object}
  {xs : List Object} {completion : Completion Object} {after : Store}

/-- What is around an activation stays as it is while nothing is touched. -/
theorem Around.untouched {store : Store} (h : Around outer f iter store) (hu : store.Untouched after) :
    Around outer f iter after := by
  have hg : ∀ name, after.get? outer name = store.get? outer name := fun _ => Store.get?_eq_of_untouched hu h.id_lt
  exact {
    id_lt := fun around hm => Nat.lt_of_lt_of_le (h.id_lt around hm) hu.size_le
    f := (hg "f").trans h.f
    iter := (hg "iter").trans h.iter
    builtin := fun builtin hm => (hg builtin.name).trans (h.builtin builtin hm) }

theorem get?_array : (fold.entered made).get? (fold.inner outer) "arr" = some fold.array :=
  Store.get?_opened (by simp [Assoc.find?])

theorem get?_value : (fold.entered made).get? (fold.inner outer) "result" = some fold.value :=
  Store.get?_opened (by simp [Assoc.find?])

section Activation

variable (h : Around outer f iter fold.store)
include h

/-- Names that an activation does not bind stand for what they stand for around it. -/
theorem get?_around (ha : name ≠ "arr") (hr : name ≠ "result") :
    (fold.entered made).get? (fold.inner outer) name = fold.store.get? outer name := by
  have hn : Assoc.find? name [("arr", fold.array), ("result", fold.value)] = none := by
    simp [Assoc.find?, ha.symm, hr.symm]
  exact (Store.get?_opened_of_none hn).trans (Store.get?_eq_of_untouched Store.untouched_opened h.id_lt)

/-- The names of the outer function are found around the activation. -/
theorem get?_f : (fold.entered made).get? (fold.inner outer) "f" = some f :=
  (get?_around h (by decide) (by decide)).trans h.f

theorem get?_iter : (fold.entered made).get? (fold.inner outer) "iter" = some iter :=
  (get?_around h (by decide) (by decide)).trans h.iter

/-- Nothing hides the builtin functions that the source calls. -/
theorem get?_builtin {builtin : Builtin} (hm : builtin ∈ [Builtin.len, .first, .rest]) :
    (fold.entered made).get? (fold.inner outer) builtin.name = none := by
  refine (get?_around h ?_ ?_).trans (h.builtin builtin hm)
  · cases builtin <;> decide
  · cases builtin <;> decide

variable [ByteHash]

/-- A builtin function that is called with the array of the activation. -/
theorem completes_builtin_iff {builtin : Builtin} (hm : builtin ∈ [Builtin.len, .first, .rest])
    (ha : fold.array.value = .array xs) :
    Completes (Expr.eval · (fold.inner outer) (.call (.ident ⟨builtin.name, line⟩) [.ident ⟨"arr", line⟩] line))
        (fold.entered made) completion after ↔
      produce line (.ok (builtin.onArray xs [])) (fold.entered (made + 1)) = some (completion, after) := by
  have hf : Completes (Expr.eval · (fold.inner outer) (.ident ⟨builtin.name, line⟩)) (fold.entered made)
      (.normal ⟨fold.store.nextId + made, .builtin builtin⟩) (fold.entered (made + 1)) :=
    Expr.completes_builtin (get?_builtin h hm)
  have hx : Completes (Expr.evalAll · (fold.inner outer) [.ident ⟨"arr", line⟩]) (fold.entered (made + 1))
      (.normal [fold.array]) (fold.entered (made + 1)) :=
    Expr.completes_evalAll_cons (Expr.completes_ident get?_array) Expr.completes_evalAll_nil
  have hb : ([] : List Object).length + 1 = builtin.arity := by
    revert hm
    cases builtin <;> decide
  rw [Expr.completes_call_iff_of_normal hf hx, Object.completes_builtin_iff rfl, Builtin.apply_array ha hb]

/-- The test asks whether nothing is to come. -/
theorem completes_test (ha : fold.array.value = .array xs) :
    Completes (Expr.eval · (fold.inner outer) test) (fold.entered 0) (.normal (.ofBool (decide (xs = []))))
      (fold.entered 3) := by
  have hlen : Completes (Expr.eval · (fold.inner outer) (.call (.ident ⟨"len", 4⟩) [.ident ⟨"arr", 4⟩] 4))
      (fold.entered 0) (.normal ⟨fold.store.nextId + 1, .number (.ofNat xs.length)⟩) (fold.entered 2) :=
    (completes_builtin_iff h (by simp : Builtin.len ∈ _) ha).mpr rfl
  have hzero : Completes (Expr.eval · (fold.inner outer) (.number .zero 4)) (fold.entered 2)
      (.normal ⟨fold.store.nextId + 2, .number .zero⟩) (fold.entered 3) := Expr.completes_number
  have he : (Single.ofNat xs.length).equal .zero = decide (xs = []) := by
    rw [Bool.eq_iff_iff, Single.equal_ofNat_zero_iff, List.length_eq_zero_iff, decide_eq_true_iff]
  refine (Expr.completes_binary_iff hlen hzero).mpr ?_
  rw [← he]
  rfl

/-- Behind the test the body ends as the branch that is chosen. -/
theorem completes_body_iff (ha : fold.array.value = .array xs) :
    Completes (Statement.runAll · (fold.inner outer) .null iterBody.statements) (fold.entered 0) completion after ↔
      Completes (Expr.eval · (fold.inner outer) (branch xs)) (fold.entered 3) completion after := by
  refine Statement.completes_runAll_singleton_iff.trans (Statement.completes_expression_iff.trans ?_)
  rw [Expr.completes_conditional_iff (completes_test h ha), branch]
  by_cases hx : xs = []
  · simp only [hx, Block.chosen, Object.ofBool, Value.truthy, decide_true, if_true]
    exact Statement.completes_runAll_singleton_iff.trans Statement.completes_expression_iff
  · simp only [hx, Block.chosen, Object.ofBool, Value.truthy, decide_false, Bool.false_eq_true, if_false]
    exact Statement.completes_runAll_singleton_iff.trans Statement.completes_expression_iff

/-- The function is called with what has been made and the first element. -/
theorem completes_applied_iff (ha : fold.array.value = .array (x :: xs)) :
    Completes (Expr.eval · (fold.inner outer) applied) (fold.entered 5) completion after ↔
      Completes (Object.call · f [fold.value, x] 7) (fold.entered 6) completion after := by
  have hfirst : Completes (Expr.eval · (fold.inner outer) (.call (.ident ⟨"first", 7⟩) [.ident ⟨"arr", 7⟩] 7))
      (fold.entered 5) (.normal x) (fold.entered 6) :=
    (completes_builtin_iff h (by simp : Builtin.first ∈ _) ha).mpr rfl
  have hx : Completes (Expr.evalAll · (fold.inner outer)
      [.ident ⟨"result", 7⟩, .call (.ident ⟨"first", 7⟩) [.ident ⟨"arr", 7⟩] 7]) (fold.entered 5)
      (.normal [fold.value, x]) (fold.entered 6) :=
    Expr.completes_evalAll_cons (Expr.completes_ident get?_value)
      (Expr.completes_evalAll_cons hfirst Expr.completes_evalAll_nil)
  exact Expr.completes_call_iff_of_normal (Expr.completes_ident (get?_f h)) hx

/-- The inner function is called with the rest of the array and with what the call of the function gives. -/
theorem completes_again_iff (ha : fold.array.value = .array (x :: xs)) :
    Completes (Expr.eval · (fold.inner outer) again) (fold.entered 3) completion after ↔
      (∃ value middle, Completes (Object.call · f [fold.value, x] 7) (fold.entered 6) (.normal value) middle ∧
          Completes (Object.call · iter [fold.tail xs, value] 7) middle completion after) ∨
        ∃ failure, Completes (Object.call · f [fold.value, x] 7) (fold.entered 6) (.failed failure) after ∧
          completion = .failed failure := by
  have hrest : Completes (Expr.eval · (fold.inner outer) remaining) (fold.entered 3) (.normal (fold.tail xs))
      (fold.entered 5) := (completes_builtin_iff h (by simp : Builtin.rest ∈ _) ha).mpr rfl
  have hp : ∀ objects, Persists (Object.call · iter objects 7) := fun objects => Object.persists_call iter objects 7
  unfold again
  rw [Expr.completes_call_iff (Expr.completes_ident (get?_iter h)),
    Expr.completes_evalAll_cons_iff_of_normal hp hrest,
    Expr.completes_evalAll_singleton_iff fun objects => hp (_ :: objects),
    completes_bind_iff (Expr.persists_eval _ _) fun value => hp [_, value]]
  simp only [completes_applied_iff h ha]
  -- Of the abrupt ends only failures are left, since no call is left by a `return`.
  refine or_congr .rfl ⟨?_, ?_⟩
  · rintro ⟨returned | failure, hc, rfl⟩
    · exact absurd hc Object.not_completes_call_returned
    · exact ⟨failure, hc, rfl⟩
  · rintro ⟨failure, hc, rfl⟩
    exact ⟨.failed failure, hc, rfl⟩

variable (hi : iter.value = .function iterParameters iterBody outer)
include hi

/-- An activation ends as the branch that is chosen, if no `return` leaves that. -/
theorem completes_iter_iff (ha : fold.array.value = .array xs)
    (hr : ∀ object after,
      ¬ Completes (Expr.eval · (fold.inner outer) (branch xs)) (fold.entered 3) (.returned object) after) :
    Completes (Object.call · iter [fold.array, fold.value] line) fold.store completion after ↔
      Completes (Expr.eval · (fold.inner outer) (branch xs)) (fold.entered 3) completion after := by
  have he : fold.store.opened (((iterParameters.map Ident.name).zip [fold.array, fold.value]).foldl
      (fun held binding => Assoc.insert binding.1 binding.2 held) []) 0 = fold.entered 0 := by
    simp [iterParameters, Assoc.insert, entered]
  rw [Object.completes_call_iff hi rfl, he, completes_catchReturn_iff, completes_body_iff h ha]
  intro object after
  rw [completes_body_iff h ha]
  exact hr object after

/-- **With nothing to come an activation gives what has been made.** -/
theorem completes_iter_nil_iff (ha : fold.array.value = .array []) :
    Completes (Object.call · iter [fold.array, fold.value] line) fold.store completion after ↔
      completion = .normal fold.value ∧ after = fold.entered 3 := by
  have hv : Completes (Expr.eval · (fold.inner outer) (branch [])) (fold.entered 3) (.normal fold.value)
      (fold.entered 3) := Expr.completes_ident get?_value
  have hp := Expr.persists_eval (fold.inner outer) (branch [])
  rw [completes_iter_iff h hi ha]
  · constructor
    · intro hc
      exact hc.unique hp hv
    · rintro ⟨rfl, rfl⟩
      exact hv
  · intro object after hc
    cases (hc.unique hp hv).1

/-- **Otherwise it calls the function for the first element, and then itself for the others.** -/
theorem completes_iter_cons_iff (ha : fold.array.value = .array (x :: xs)) :
    Completes (Object.call · iter [fold.array, fold.value] line) fold.store completion after ↔
      (∃ value middle, Completes (Object.call · f [fold.value, x] 7) (fold.entered 6) (.normal value) middle ∧
          Completes (Object.call · iter [fold.tail xs, value] 7) middle completion after) ∨
        ∃ failure, Completes (Object.call · f [fold.value, x] 7) (fold.entered 6) (.failed failure) after ∧
          completion = .failed failure := by
  have hb : branch (x :: xs) = again := if_neg (List.cons_ne_nil x xs)
  rw [completes_iter_iff h hi ha, hb, completes_again_iff h ha]
  intro object after
  rw [hb, completes_again_iff h ha]
  rintro (⟨value, middle, -, hc⟩ | ⟨failure, -, he⟩)
  · exact Object.not_completes_call_returned hc
  · cases he

end Activation

end Fold

end TinyScript
