import TinyScript.Proofs.Folding.Activation
import TinyScript.Text.Fx

/-! # A fold written in the language is a fold

What it is to fold an array with a function is said by the calls that are made (`Fold.Calls`): one for each element, in
order, with what the last call gave and the element, until there is none left or a call fails (`Fold.Ends`).
**`reduce` folds every array with every function** (`Fold.reduce_folds`): it completes as those calls do, with the store
that they leave, and it completes if they do.

The inner function is followed by induction on the elements (`Fold.completes_iter_iff_calls`), one activation at a time.
Each call of the function may do anything but touch the scopes there are, so the next activation finds the names bound
as the first one did.
-/

namespace TinyScript

open Evaluation

namespace Fold

/-- A call of the function, with what it gives. -/
structure Call where
  arguments : List Object
  result : Object

section

variable [ByteHash]

/-- Calls that are made one after another and complete normally: each with what has been made and the next element, on a
line. -/
inductive Calls (f : Object) (line : Nat) : Fold → List Call → Fold → Prop where
  | none {fold : Fold} : Calls f line fold [] fold
  | more {fold last : Fold} {x value : Object} {xs : List Object} {calls : List Call} {after : Store}
      (ha : fold.array.value = .array (x :: xs))
      (hc : Completes (Object.call · f [fold.value, x] line) (fold.entered 6) (.normal value) after)
      (h : Calls f line ⟨fold.tail xs, value, after⟩ calls last) :
      Calls f line fold (⟨[fold.value, x], value⟩ :: calls) last

/-- How a fold ends: with what has been made when nothing is to come, or as the next call fails. -/
inductive Ends (f : Object) (line : Nat) (fold : Fold) : Completion Object → Store → Prop where
  | done (ha : fold.array.value = .array []) : Ends f line fold (.normal fold.value) (fold.entered 3)
  | failed {x : Object} {xs : List Object} {failure : Failure} {after : Store}
      (ha : fold.array.value = .array (x :: xs))
      (hc : Completes (Object.call · f [fold.value, x] line) (fold.entered 6) (.failed failure) after) :
      Ends f line fold (.failed failure) after

/-- An evaluation from a store folds elements with a function that it calls on a line. -/
structure Folds (f : Object) (line : Nat) (elements : List Object) (start : Fold)
    (evaluation : Nat → Evaluation Object) (store : Store) : Prop where
  /-- It completes as the calls do, and in no other way. -/
  completes_iff : ∀ completion after, Completes evaluation store completion after ↔
    ∃ calls last, start.Calls f line calls last ∧ last.Ends f line completion after
  /-- Each call is made with the result of the one before it and the next element. -/
  calls : ∀ calls last, start.Calls f line calls last →
    calls.length ≤ elements.length ∧
      calls.map Call.arguments =
        List.zipWith (fun value x => [value, x]) (start.value :: calls.map Call.result)
          (elements.take calls.length) ∧
      last.value = (calls.map Call.result).getLastD start.value ∧
      last.array.value = .array (elements.drop calls.length)
  /-- If a call succeeds for each element, the result is that of the last one. -/
  succeeds : ∀ calls last, start.Calls f line calls last → calls.length = elements.length →
    Completes evaluation store (.normal ((calls.map Call.result).getLastD start.value)) (last.entered 3)
  /-- If a call fails, so does the fold, in the same way and at once. -/
  fails : ∀ calls last x xs failure after, start.Calls f line calls last →
    elements.drop calls.length = x :: xs →
    Completes (Object.call · f [last.value, x] line) (last.entered 6) (.failed failure) after →
    Completes evaluation store (.failed failure) after
  /-- Without elements nothing is called. -/
  nil : elements = [] → Completes evaluation store (.normal start.value) (start.entered 3)
  /-- It completes if each call that comes up does. -/
  terminates :
    (∀ calls last x xs, start.Calls f line calls last → elements.drop calls.length = x :: xs →
      ∃ completion after, Completes (Object.call · f [last.value, x] line) (last.entered 6) completion after) →
    ∃ completion after, Completes evaluation store completion after

variable {f iter array init : Object} {fold last : Fold} {calls : List Call} {elements : List Object} {line : Nat}
  {outer scope : Scope} {store after : Store} {completion : Completion Object}

/-! ## Calls in order -/

/-- **The calls take the elements one after another**, each with the result of the call before it. -/
theorem Calls.threaded (h : fold.Calls f line calls last) (ha : fold.array.value = .array elements) :
    calls.length ≤ elements.length ∧
      calls.map Call.arguments =
        List.zipWith (fun value x => [value, x]) (fold.value :: calls.map Call.result) (elements.take calls.length) ∧
      last.value = (calls.map Call.result).getLastD fold.value ∧
      last.array.value = .array (elements.drop calls.length) := by
  induction h generalizing elements with
  | none => simp [ha]
  | more ha' hc h ih =>
    rw [ha'] at ha
    cases ha
    obtain ⟨hl, harguments, hv, hd⟩ := ih rfl
    refine ⟨Nat.succ_le_succ hl, by simp [harguments], ?_, hd⟩
    rw [hv, List.map_cons, List.getLastD_cons]

/-- If each call that comes up completes, the calls come to an end. -/
theorem exists_ends (ha : fold.array.value = .array elements)
    (ht : ∀ calls last x xs, fold.Calls f line calls last → elements.drop calls.length = x :: xs →
      ∃ completion after, Completes (Object.call · f [last.value, x] line) (last.entered 6) completion after) :
    ∃ calls last completion after, fold.Calls f line calls last ∧ last.Ends f line completion after := by
  induction elements generalizing fold with
  | nil => exact ⟨[], fold, _, _, .none, .done ha⟩
  | cons x xs ih =>
    obtain ⟨completion, after, hc⟩ := ht [] fold x xs .none rfl
    cases completion with
    | normal value =>
      have hr : (⟨fold.tail xs, value, after⟩ : Fold).array.value = .array xs := rfl
      obtain ⟨calls, last, completion, after, hcalls, he⟩ := ih hr fun calls last x xs h hd =>
        ht _ last x xs (.more ha hc h) hd
      exact ⟨_, last, completion, after, .more ha hc hcalls, he⟩
    | returned object => exact absurd hc Object.not_completes_call_returned
    | failed failure => exact ⟨[], fold, _, _, .none, .failed ha hc⟩

/-- What a call leaves binds the names around as before. -/
theorem Around.called {arguments : List Object} {made : Nat} (h : Around outer f iter fold.store)
    (hc : Completes (Object.call · f arguments line) (fold.entered made) completion after) :
    Around outer f iter after := by
  obtain ⟨depth, hd⟩ := hc
  exact h.untouched (Store.untouched_opened.trans ((evalWrites depth).call f arguments line _ completion after hd))

/-- With nothing to come no call is made. -/
theorem exists_calls_nil_iff (ha : fold.array.value = .array []) :
    (∃ calls last, fold.Calls f line calls last ∧ last.Ends f line completion after) ↔
      completion = .normal fold.value ∧ after = fold.entered 3 := by
  constructor
  · rintro ⟨calls, last, hcalls, he⟩
    cases hcalls with
    | none =>
      cases he with
      | done => exact ⟨rfl, rfl⟩
      | failed ha' =>
        rw [ha] at ha'
        cases ha'
    | more ha' =>
      rw [ha] at ha'
      cases ha'
  · rintro ⟨rfl, rfl⟩
    exact ⟨[], fold, .none, .done ha⟩

/-- Otherwise a call is made with the first element, and the others follow if it succeeds. -/
theorem exists_calls_cons_iff {x : Object} {xs : List Object} (ha : fold.array.value = .array (x :: xs)) :
    (∃ calls last, fold.Calls f line calls last ∧ last.Ends f line completion after) ↔
      (∃ value middle, Completes (Object.call · f [fold.value, x] line) (fold.entered 6) (.normal value) middle ∧
          ∃ calls last, (Fold.mk (fold.tail xs) value middle).Calls f line calls last ∧
            last.Ends f line completion after) ∨
        ∃ failure, Completes (Object.call · f [fold.value, x] line) (fold.entered 6) (.failed failure) after ∧
          completion = .failed failure := by
  constructor
  · rintro ⟨calls, last, hcalls, he⟩
    cases hcalls with
    | none =>
      cases he with
      | done ha' =>
        rw [ha] at ha'
        cases ha'
      | failed ha' hc =>
        rw [ha] at ha'
        cases ha'
        exact .inr ⟨_, hc, rfl⟩
    | more ha' hc hcalls =>
      rw [ha] at ha'
      cases ha'
      exact .inl ⟨_, _, hc, _, last, hcalls, he⟩
  · rintro (⟨value, middle, hc, calls, last, hcalls, he⟩ | ⟨failure, hc, rfl⟩)
    · exact ⟨_, last, .more ha hc hcalls, he⟩
    · exact ⟨[], fold, .none, .failed ha hc⟩

/-- **The inner function makes the calls**, and completes as they do. -/
theorem completes_iter_iff_calls (h : Around outer f iter fold.store)
    (hi : iter.value = .function iterParameters iterBody outer) (ha : fold.array.value = .array elements) :
    Completes (Object.call · iter [fold.array, fold.value] line) fold.store completion after ↔
      ∃ calls last, fold.Calls f 7 calls last ∧ last.Ends f 7 completion after := by
  induction elements generalizing fold line with
  | nil => rw [completes_iter_nil_iff h hi ha, exists_calls_nil_iff ha]
  | cons x xs ih =>
    rw [completes_iter_cons_iff h hi ha, exists_calls_cons_iff ha]
    refine or_congr (exists_congr fun value => exists_congr fun middle => and_congr_right fun hc => ?_) .rfl
    -- The call may have changed much in the store, but not what the next activation looks up around it.
    have hm : Around outer f iter (Fold.mk (fold.tail xs) value middle).store := h.called hc
    exact ih hm rfl

/-! ## The outer function -/

/-- The closure that `reduce` makes in an activation of its own. -/
def closure (scope : Scope) (store : Store) : Object :=
  ⟨store.nextId, .function iterParameters iterBody (.enclosed store.bindings.size scope)⟩

/-- What is bound in an activation of `reduce` when the inner function is called. -/
def bound (scope : Scope) (array init f : Object) (store : Store) : Bindings :=
  [("arr", array), ("initial", init), ("f", f), ("iter", closure scope store)]

/-- Where the inner function is called first. -/
def start (scope : Scope) (array init f : Object) (store : Store) : Fold :=
  ⟨array, init, store.opened (bound scope array init f store) 1⟩

omit [ByteHash] in
/-- The scope that a call of the outer function opens is around all activations of the inner one. -/
theorem around_start (hs : ∀ around ∈ scope.around, around.id < store.bindings.size)
    (hb : ∀ builtin ∈ [Builtin.len, .first, .rest], store.get? scope builtin.name = none) :
    Around (.enclosed store.bindings.size scope) f (closure scope store) (start scope array init f store).store := by
  constructor
  case id_lt =>
    intro around hm
    have hsize : (start scope array init f store).store.bindings.size = store.bindings.size + 1 := Array.size_push _
    rw [hsize]
    obtain rfl | hm := List.mem_cons.mp hm
    · exact Nat.lt_succ_self _
    · exact Nat.lt_succ_of_lt (hs around hm)
  case f => exact Store.get?_opened (by simp [bound, Assoc.find?])
  case iter => exact Store.get?_opened (by simp [bound, Assoc.find?])
  case builtin =>
    intro builtin hm
    have hn : Assoc.find? builtin.name (bound scope array init f store) = none := by
      cases builtin <;> simp [bound, Assoc.find?, Builtin.name]
    exact (Store.get?_opened_of_none hn).trans
      ((Store.get?_eq_of_untouched Store.untouched_opened hs).trans (hb builtin hm))

/-- `reduce` makes the inner function, and completes as that does. -/
theorem completes_reduce_iff {callee : Object} (hv : callee.value = .function parameters body scope) :
    Completes (Object.call · callee [array, init, f] line) store completion after ↔
      Completes (Object.call · (closure scope store) [array, init] 11) (start scope array init f store).store
        completion after := by
  let inner : Scope := .enclosed store.bindings.size scope
  let locals : Bindings := [("arr", array), ("initial", init), ("f", f)]
  have hlocals : ((parameters.map Ident.name).zip [array, init, f]).foldl
      (fun held binding => Assoc.insert binding.1 binding.2 held) [] = locals := by
    simp [parameters, Assoc.insert, locals]
  have hset : (store.opened locals 1).set inner "iter" (closure scope store) =
      (start scope array init f store).store := by
    rw [Store.set_opened]
    simp [start, bound, Assoc.insert, locals]
  have hlet : Completes (Statement.run · inner (.bind ⟨"iter", 3⟩ (.function iterParameters iterBody 3) 3))
      (store.opened locals 0) (.normal .null) (start scope array init f store).store :=
    hset ▸ Statement.completes_bind Expr.completes_function
  have hname : ∀ name object, Assoc.find? name (bound scope array init f store) = some object →
      Completes (Expr.eval · inner (.ident ⟨name, 11⟩)) (start scope array init f store).store (.normal object)
        (start scope array init f store).store := fun _ _ h => Expr.completes_ident (Store.get?_opened h)
  have hiter := hname "iter" (closure scope store) (by simp [bound, Assoc.find?])
  have harr := hname "arr" array (by simp [bound, Assoc.find?])
  have hinit := hname "initial" init (by simp [bound, Assoc.find?])
  have hbody : ∀ completion after,
      Completes (Statement.runAll · inner .null body.statements) (store.opened locals 0) completion after ↔
        Completes (Object.call · (closure scope store) [array, init] 11) (start scope array init f store).store
          completion after := by
    intro completion after
    refine (Statement.completes_runAll_iff hlet).trans (Statement.completes_runAll_singleton_iff.trans ?_)
    exact Statement.completes_expression_iff.trans (Expr.completes_call_iff_of_normal hiter
      (Expr.completes_evalAll_cons harr (Expr.completes_evalAll_cons hinit Expr.completes_evalAll_nil)))
  rw [Object.completes_call_iff hv rfl, hlocals, completes_catchReturn_iff, hbody]
  intro object after
  rw [hbody]
  exact Object.not_completes_call_returned

/-- A function value with the parameters and the body of `reduce` folds, wherever the builtin functions it uses have
their names to themselves. -/
theorem folds {callee : Object} (hv : callee.value = .function parameters body scope)
    (hs : ∀ around ∈ scope.around, around.id < store.bindings.size)
    (hb : ∀ builtin ∈ [Builtin.len, .first, .rest], store.get? scope builtin.name = none)
    (ha : array.value = .array elements) :
    Folds f 7 elements (start scope array init f store) (Object.call · callee [array, init, f] line) store := by
  have hcompletes : ∀ completion after,
      Completes (Object.call · callee [array, init, f] line) store completion after ↔
        ∃ calls last, (start scope array init f store).Calls f 7 calls last ∧ last.Ends f 7 completion after :=
    fun completion after =>
      (completes_reduce_iff hv).trans (completes_iter_iff_calls (around_start hs hb) rfl ha)
  constructor
  case completes_iff => exact hcompletes
  case calls => exact fun calls last hcalls => hcalls.threaded ha
  case succeeds =>
    intro calls last hcalls hl
    obtain ⟨-, -, hv, hd⟩ := hcalls.threaded ha
    rw [hl, List.drop_length] at hd
    exact (hcompletes ..).mpr ⟨calls, last, hcalls, hv ▸ .done hd⟩
  case fails =>
    intro calls last x xs failure after hcalls hx hc
    obtain ⟨-, -, -, hd⟩ := hcalls.threaded ha
    exact (hcompletes ..).mpr ⟨calls, last, hcalls, .failed (hd.trans (congrArg Value.array hx)) hc⟩
  case nil =>
    rintro rfl
    exact (hcompletes ..).mpr ⟨[], _, .none, .done ha⟩
  case terminates =>
    intro ht
    obtain ⟨calls, last, completion, after, hcalls, he⟩ := exists_ends ha ht
    exact ⟨completion, after, (hcompletes ..).mpr ⟨calls, last, hcalls, he⟩⟩

/-- **The function value that the definition of `reduce` makes is a fold.** It is bound by running the definition in a
new session. Whenever it is applied to an array, a value and a function, it folds the elements with the function, which
it calls on line 7, as long as the scope of the definition binds none of the builtin functions' names. -/
theorem reduce_folds :
    (∃ depth, Session.fresh.interpret depth source = some (.value .null, defined)) ∧
      defined.get? "reduce" = some reduce ∧
      ∀ store : Store, defined.scope.id < store.bindings.size →
        (∀ builtin ∈ [Builtin.len, .first, .rest], store.get? defined.scope builtin.name = none) →
        ∀ array init f elements line, array.value = .array elements →
          ∃ start : Fold, start.array = array ∧ start.value = init ∧ store.Untouched start.store ∧
            Folds f 7 elements start (Object.call · reduce [array, init, f] line) store := by
  refine ⟨⟨3, interpret_source⟩, rfl, ?_⟩
  intro store hs hb array init f elements line ha
  refine ⟨start (.root 0) array init f store, rfl, rfl, Store.untouched_opened, folds rfl ?_ hb ha⟩
  intro around hm
  obtain rfl := List.mem_singleton.mp hm
  exact hs

end

/-- Folding with `push` copies the array. Folding with what is no function fails at the first call, on its line. -/
theorem reduce_folds_push :
    let store : Store := ⟨defined.store.bindings, 7⟩
    let push : Object := ⟨4, .builtin .push⟩
    let init : Object := ⟨5, .array []⟩
    let array : Object := ⟨6, .array [.ofBool true, .null]⟩
    defined.scope.id < store.bindings.size ∧
      (∀ builtin ∈ [Builtin.len, .first, .rest], store.get? defined.scope builtin.name = none) ∧
      (∃ result after, result.value = .array [.ofBool true, .null] ∧
        Completes (Object.call · reduce [array, init, push] 1) store (.normal result) after) ∧
      ∃ after, Completes (Object.call · reduce [array, init, .null] 1) store (.failed ⟨.notAFunction .null, 7⟩)
        after := by
  intro store push init array
  obtain ⟨-, -, hfolds⟩ := reduce_folds
  have hs : defined.scope.id < store.bindings.size := by decide
  have hb : ∀ builtin ∈ [Builtin.len, .first, .rest], store.get? defined.scope builtin.name = none := by
    intro builtin _
    cases builtin <;> rfl
  obtain ⟨⟨_, _, before⟩, rfl, rfl, -, pushes⟩ := hfolds store hs hb array init push _ 1 rfl
  obtain ⟨⟨_, _, _⟩, rfl, rfl, -, stops⟩ := hfolds store hs hb array init .null _ 1 rfl
  refine ⟨hs, hb, ⟨_, _, ?_, pushes.succeeds _ _ (.more rfl ⟨1, rfl⟩ (.more rfl ⟨1, rfl⟩ .none)) rfl⟩, _,
    stops.fails [] _ _ _ _ _ .none rfl ⟨1, rfl⟩⟩
  rfl

end Fold

end TinyScript
