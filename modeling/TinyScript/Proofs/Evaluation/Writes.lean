import TinyScript.Evaluation.Program

/-! # Where evaluation writes

A `let` writes to the scope it runs in, and a call runs the body of its function in a scope that the call has
just opened. So whatever is evaluated in a scope, with whatever end, the other scopes there are keep their
bindings, and the scope itself loses none and gains or changes none but those of the `let` statements that
stand in the evaluated code outside functions (`evalWrites`). A call writes to no scope there is.

`before.WritesOnly scope names after` says the first and `before.Untouched after` the second of two stores;
the statements about evaluations say it of the stores before and after.
-/

namespace TinyScript

mutual

/-- The names that evaluating an expression can bind in the scope around it: those of the `let` statements
in its branches. The body of a function runs in a scope of its own. -/
def Expr.letNames : Expr → List String
  | .ident _ => []
  | .number _ _ => []
  | .boolean _ _ => []
  | .string _ _ => []
  | .array elements _ => Expr.letNamesAll elements
  | .hash entries _ => Expr.letNamesEntries entries
  | .unary _ operand _ => operand.letNames
  | .binary _ left right _ => left.letNames ++ right.letNames
  | .conditional condition consequence alternative _ =>
    condition.letNames ++ (consequence.letNames ++ Block.letNames? alternative)
  | .function _ _ _ => []
  | .call callee arguments _ => callee.letNames ++ Expr.letNamesAll arguments
  | .index collection position _ => collection.letNames ++ position.letNames

/-- The names that evaluating expressions can bind. -/
def Expr.letNamesAll : List Expr → List String
  | [] => []
  | e :: es => e.letNames ++ Expr.letNamesAll es

/-- The names that evaluating the entries of a hash can bind. -/
def Expr.letNamesEntries : List (Expr × Expr) → List String
  | [] => []
  | (key, value) :: entries => key.letNames ++ (value.letNames ++ Expr.letNamesEntries entries)

/-- The names that running a statement can bind. -/
def Statement.letNames : Statement → List String
  | .bind name value _ => value.letNames ++ [name.name]
  | .leave none _ => []
  | .leave (some value) _ => value.letNames
  | .expression value _ => value.letNames
  | .block body => body.letNames

/-- The names that running statements can bind. -/
def Statement.letNamesAll : List Statement → List String
  | [] => []
  | s :: ss => s.letNames ++ Statement.letNamesAll ss

/-- The names that running a block can bind. -/
def Block.letNames : Block → List String
  | .mk statements _ => Statement.letNamesAll statements

/-- The names that running a block, if there is one, can bind. -/
def Block.letNames? : Option Block → List String
  | none => []
  | some body => body.letNames

end

namespace Store

/-- No scope that there was is changed. -/
structure Untouched (before after : Store) : Prop where
  size_le : before.bindings.size ≤ after.bindings.size
  locals_eq : ∀ id < before.bindings.size, after.locals id = before.locals id

/-- Of the scopes that there were, one alone is changed, and in it no binding is lost and only some names
are bound anew. -/
structure WritesOnly (scope : Scope) (names : List String) (before after : Store) : Prop where
  size_le : before.bindings.size ≤ after.bindings.size
  locals_eq : ∀ id < before.bindings.size, id ≠ scope.id → after.locals id = before.locals id
  isSome : ∀ name, (Assoc.find? name (before.locals scope.id)).isSome →
    (Assoc.find? name (after.locals scope.id)).isSome
  find?_eq : ∀ name, name ∉ names →
    Assoc.find? name (after.locals scope.id) = Assoc.find? name (before.locals scope.id)

variable {before middle after : Store} {scope : Scope} {names others : List String}

theorem Untouched.refl (store : Store) : store.Untouched store :=
  ⟨Nat.le_refl _, fun _ _ => rfl⟩

/-- Nothing is touched in two steps if it is not in either. -/
theorem Untouched.trans (h : before.Untouched middle) (h' : middle.Untouched after) :
    before.Untouched after := by
  refine ⟨Nat.le_trans h.size_le h'.size_le, fun id hid => ?_⟩
  rw [h'.locals_eq id (Nat.lt_of_lt_of_le hid h.size_le), h.locals_eq id hid]

/-- A store that is not touched is written to nowhere. -/
theorem Untouched.writesOnly (h : before.Untouched after) (hs : scope.id < before.bindings.size)
    (names : List String) : WritesOnly scope names before after := by
  refine ⟨h.size_le, fun id hid _ => h.locals_eq id hid, fun name hn => ?_, fun name _ => ?_⟩
  · rw [h.locals_eq scope.id hs]
    exact hn
  · rw [h.locals_eq scope.id hs]

/-- What is written in two steps is written in one of them. -/
theorem WritesOnly.trans (h : WritesOnly scope names before middle)
    (h' : WritesOnly scope names middle after) : WritesOnly scope names before after := by
  refine ⟨Nat.le_trans h.size_le h'.size_le, fun id hid hne => ?_, fun name hn => ?_, fun name hn => ?_⟩
  · rw [h'.locals_eq id (Nat.lt_of_lt_of_le hid h.size_le) hne, h.locals_eq id hid hne]
  · exact h'.isSome name (h.isSome name hn)
  · rw [h'.find?_eq name hn, h.find?_eq name hn]

theorem WritesOnly.mono (h : WritesOnly scope names before after) (hn : names ⊆ others) :
    WritesOnly scope others before after :=
  ⟨h.size_le, h.locals_eq, h.isSome, fun name hname => h.find?_eq name fun hm => hname (hn hm)⟩

theorem size_set (store : Store) (scope : Scope) (name : String) (object : Object) :
    (store.set scope name object).bindings.size = store.bindings.size :=
  Array.size_modify

/-- Binding a name in a scope that there is writes that name alone. -/
theorem writesOnly_set (hs : scope.id < before.bindings.size) (name : String) (object : Object) :
    WritesOnly scope [name] before (before.set scope name object) := by
  refine ⟨Nat.le_of_eq (before.size_set ..).symm, fun id _ hne => locals_set_of_ne hne, ?_, ?_⟩
  · intro other ho
    rw [locals_set_self hs]
    by_cases h : other = name
    · rw [h, Assoc.find?_insert_self]
      rfl
    · rw [Assoc.find?_insert_of_ne _ _ h]
      exact ho
  · intro other ho
    rw [locals_set_self hs, Assoc.find?_insert_of_ne _ _ fun h => ho (List.mem_singleton.mpr h)]

/-- A new scope stands behind all that there are. -/
theorem untouched_enclose (store : Store) (outer : Scope) : store.Untouched (store.enclose outer).2 := by
  refine ⟨?_, fun id _ => locals_enclose outer⟩
  show store.bindings.size ≤ (store.bindings.push []).size
  rw [Array.size_push]
  exact Nat.le_succ _

/-- Binding in a scope leaves the number of scopes and all other scopes as they are. -/
theorem setAll_frame (store : Store) (scope : Scope) (bindings : List (String × Object)) :
    (store.setAll scope bindings).bindings.size = store.bindings.size ∧
      ∀ id, id ≠ scope.id → (store.setAll scope bindings).locals id = store.locals id := by
  induction bindings generalizing store with
  | nil => exact ⟨rfl, fun _ _ => rfl⟩
  | cons binding rest ih =>
    obtain ⟨name, object⟩ := binding
    obtain ⟨hs, hl⟩ := ih (store.set scope name object)
    refine ⟨hs.trans (store.size_set ..), fun id hne => ?_⟩
    exact (hl id hne).trans (locals_set_of_ne hne)

/-- What is written only to a scope that was not there touches nothing. -/
theorem WritesOnly.untouched (h : WritesOnly scope names middle after) (hu : before.Untouched middle)
    (hs : before.bindings.size ≤ scope.id) : before.Untouched after := by
  refine ⟨Nat.le_trans hu.size_le h.size_le, fun id hid => ?_⟩
  rw [h.locals_eq id (Nat.lt_of_lt_of_le hid hu.size_le) (by omega), hu.locals_eq id hid]

end Store

namespace Evaluation

variable {α β : Type} {scope : Scope} {names others : List String}

/-- An evaluation that touches no scope there is, however it completes. -/
def Untouching (evaluation : Evaluation α) : Prop :=
  ∀ store completion after, evaluation store = some (completion, after) → store.Untouched after

/-- An evaluation that writes to one scope alone and binds some names alone there, however it completes. -/
def WritesOnly (scope : Scope) (names : List String) (evaluation : Evaluation α) : Prop :=
  ∀ store completion after, scope.id < store.bindings.size →
    evaluation store = some (completion, after) → Store.WritesOnly scope names store after

theorem untouching_pure (value : α) : (pure value : Evaluation α).Untouching := by
  rintro store _ _ ⟨⟩
  exact .refl store

theorem untouching_exhausted : (exhausted : Evaluation α).Untouching :=
  fun _ _ _ h => nomatch h

theorem untouching_fail (fault : Fault) (line : Nat) : (fail fault line : Evaluation α).Untouching := by
  rintro store _ _ ⟨⟩
  exact .refl store

theorem untouching_leave (object : Object) : (leave object : Evaluation α).Untouching := by
  rintro store _ _ ⟨⟩
  exact .refl store

theorem untouching_allocate (value : Value) : (allocate value).Untouching := by
  rintro store _ _ ⟨⟩
  exact ⟨Nat.le_refl _, fun _ _ => rfl⟩

theorem untouching_lookup (scope : Scope) (name : String) : (lookup scope name).Untouching := by
  rintro store _ _ ⟨⟩
  exact .refl store

theorem untouching_ofExcept (line : Nat) (result : Except Fault α) : (ofExcept line result).Untouching := by
  cases result with
  | ok value => exact untouching_pure value
  | error fault => exact untouching_fail fault line

/-- A sequence of two goes on to the second, or ends where the first is left or fails. -/
theorem bind_eq_some {first : Evaluation α} {next : α → Evaluation β} {store : Store}
    {completion : Completion β} {after : Store} (h : (first >>= next) store = some (completion, after)) :
    (∃ value middle, first store = some (.normal value, middle) ∧
        next value middle = some (completion, after)) ∨
      (∃ object, first store = some (.returned object, after) ∧ completion = .returned object) ∨
        ∃ failure, first store = some (.failed failure, after) ∧ completion = .failed failure := by
  have hb : Evaluation.bind first next store = some (completion, after) := h
  unfold Evaluation.bind at hb
  split at hb
  · next value middle hf => exact .inl ⟨value, middle, hf, hb⟩
  · next object middle hf =>
    cases hb
    exact .inr (.inl ⟨object, hf, rfl⟩)
  · next failure middle hf =>
    cases hb
    exact .inr (.inr ⟨failure, hf, rfl⟩)
  · cases hb

/-- Where a `return` is caught, it gives its value; nothing else is changed. -/
theorem catchReturn_eq_some {evaluation : Evaluation Object} {store : Store}
    {completion : Completion Object} {after : Store}
    (h : evaluation.catchReturn store = some (completion, after)) :
    (∃ object, evaluation store = some (.returned object, after) ∧ completion = .normal object) ∨
      evaluation store = some (completion, after) := by
  unfold Evaluation.catchReturn at h
  split at h
  · next object middle hr =>
    cases h
    exact .inl ⟨object, hr, rfl⟩
  · exact .inr h

/-- A sequence touches nothing if its parts do not. -/
theorem Untouching.bind {first : Evaluation α} {next : α → Evaluation β} (hf : first.Untouching)
    (hn : ∀ value, (next value).Untouching) : (first >>= next).Untouching := by
  intro store completion after h
  rcases bind_eq_some h with ⟨value, middle, h1, h2⟩ | ⟨object, h1, _⟩ | ⟨failure, h1, _⟩
  · exact (hf store _ middle h1).trans (hn value middle _ after h2)
  · exact hf store _ after h1
  · exact hf store _ after h1

theorem untouching_produce (line : Nat) (result : Except Fault Produced) :
    (produce line result).Untouching := by
  refine (untouching_ofExcept line result).bind fun produced => ?_
  cases produced with
  | existing object => exact untouching_pure object
  | fresh value => exact untouching_allocate value

theorem Untouching.writesOnly {evaluation : Evaluation α} (h : evaluation.Untouching) :
    evaluation.WritesOnly scope names :=
  fun store completion after hs he => (h store completion after he).writesOnly hs names

theorem WritesOnly.mono {evaluation : Evaluation α} (h : evaluation.WritesOnly scope names)
    (hn : names ⊆ others) : evaluation.WritesOnly scope others :=
  fun store completion after hs he => (h store completion after hs he).mono hn

/-- A sequence writes what its parts write. -/
theorem WritesOnly.bind {first : Evaluation α} {next : α → Evaluation β} (hf : first.WritesOnly scope names)
    (hn : ∀ value, (next value).WritesOnly scope others) :
    (first >>= next).WritesOnly scope (names ++ others) := by
  intro store completion after hs h
  rcases bind_eq_some h with ⟨value, middle, h1, h2⟩ | ⟨object, h1, _⟩ | ⟨failure, h1, _⟩
  · have hw := hf store _ middle hs h1
    have hw' := hn value middle _ after (Nat.lt_of_lt_of_le hs hw.size_le) h2
    exact (hw.mono (List.subset_append_left names others)).trans
      (hw'.mono (List.subset_append_right names others))
  · exact (hf store _ after hs h1).mono (List.subset_append_left names others)
  · exact (hf store _ after hs h1).mono (List.subset_append_left names others)

/-- What touches nothing adds no names. -/
theorem WritesOnly.bind_untouching {first : Evaluation α} {next : α → Evaluation β}
    (hf : first.WritesOnly scope names) (hn : ∀ value, (next value).Untouching) :
    (first >>= next).WritesOnly scope names := by
  have hq (value : α) : (next value).WritesOnly scope [] := (hn value).writesOnly
  have h := hf.bind hq
  rwa [List.append_nil] at h

/-- What is evaluated without touching anything adds no names. -/
theorem Untouching.bind_writesOnly {first : Evaluation α} {next : α → Evaluation β}
    (hf : first.Untouching) (hn : ∀ value, (next value).WritesOnly scope names) :
    (first >>= next).WritesOnly scope names := by
  have h : first.WritesOnly scope [] := hf.writesOnly
  exact h.bind hn

theorem writesOnly_assign (scope : Scope) (name : String) (object : Object) :
    (assign scope name object).WritesOnly scope [name] := by
  rintro store _ _ hs ⟨⟩
  exact Store.writesOnly_set hs name object

/-- What runs in a scope that it has opened itself touches no scope there was. -/
theorem untouching_enclose_bind {next : Scope → Evaluation α} {outer : Scope}
    {bindings : List (String × Object)} (hn : ∀ inner, (next inner).WritesOnly inner names) :
    (enclose outer bindings >>= next).Untouching := by
  intro store completion after h
  have hb : next (store.enclose outer).1 ((store.enclose outer).2.setAll (store.enclose outer).1 bindings) =
      some (completion, after) := h
  obtain ⟨hsize, hlocals⟩ := (store.enclose outer).2.setAll_frame (store.enclose outer).1 bindings
  have hopened : store.Untouched ((store.enclose outer).2.setAll (store.enclose outer).1 bindings) := by
    have he := store.untouched_enclose outer
    refine ⟨hsize ▸ he.size_le, fun id hid => ?_⟩
    rw [hlocals id (Nat.ne_of_lt hid), he.locals_eq id hid]
  -- the new scope has the first number that no scope had, so writing to it touches none of those there were
  have hid : (store.enclose outer).1.id <
      ((store.enclose outer).2.setAll (store.enclose outer).1 bindings).bindings.size := by
    rw [hsize]
    show store.bindings.size < (store.bindings.push []).size
    rw [Array.size_push]
    exact Nat.lt_succ_self _
  exact (hn _ _ completion after hid hb).untouched hopened (Nat.le_refl _)

/-- A boundary writes nothing itself. -/
theorem WritesOnly.catchReturn {evaluation : Evaluation Object} (h : evaluation.WritesOnly scope names) :
    evaluation.catchReturn.WritesOnly scope names := by
  intro store completion after hs he
  rcases catchReturn_eq_some he with ⟨object, hr, _⟩ | hr
  · exact h store _ after hs hr
  · exact h store _ after hs hr

end Evaluation

open Evaluation

/-- Looking up a name makes an object at most. -/
theorem Ident.untouching_resolve (scope : Scope) (name : Ident) : (name.resolve scope).Untouching := by
  refine (untouching_lookup scope name.name).bind fun found => ?_
  cases found with
  | some object => exact untouching_pure object
  | none =>
    dsimp only
    cases Builtin.ofName? name.name with
    | some builtin => exact untouching_allocate _
    | none => exact untouching_fail _ _

variable [ByteHash]

/-- Evaluation writes to its scope alone, within a bound. -/
structure Writes (depth : Nat) : Prop where
  eval : ∀ scope e, (Expr.eval depth scope e).WritesOnly scope e.letNames
  evalAll : ∀ scope es, (Expr.evalAll depth scope es).WritesOnly scope (Expr.letNamesAll es)
  evalEntries : ∀ scope held entries,
    (Expr.evalEntries depth scope held entries).WritesOnly scope (Expr.letNamesEntries entries)
  run : ∀ scope s, (Statement.run depth scope s).WritesOnly scope s.letNames
  runAll : ∀ scope last ss,
    (Statement.runAll depth scope last ss).WritesOnly scope (Statement.letNamesAll ss)
  call : ∀ callee arguments line, (Object.call depth callee arguments line).Untouching

namespace Writes

variable {depth : Nat}

theorem block (w : Writes depth) (scope : Scope) (body : Block) :
    (Statement.runAll depth scope .null body.statements).WritesOnly scope body.letNames := by
  cases body with
  | mk statements line => exact w.runAll scope .null statements

/-- The names that an expression writes are those of the `let`s in its branches; the bodies of functions do not count.
-/
theorem eval_succ (w : Writes depth) (scope : Scope) (e : Expr) :
    (Expr.eval (depth + 1) scope e).WritesOnly scope e.letNames := by
  cases e with
  | ident name => exact (name.untouching_resolve scope).writesOnly
  | number value => exact (untouching_allocate _).writesOnly
  | boolean value => exact (untouching_pure _).writesOnly
  | string text => exact (untouching_allocate _).writesOnly
  | function parameters body => exact (untouching_allocate _).writesOnly
  | array elements => exact (w.evalAll scope elements).bind_untouching fun _ => untouching_allocate _
  | hash entries => exact (w.evalEntries scope [] entries).bind_untouching fun _ => untouching_allocate _
  | unary op operand line => exact (w.eval scope operand).bind_untouching fun _ => untouching_produce line _
  | binary op left right line =>
    exact (w.eval scope left).bind fun _ =>
      (w.eval scope right).bind_untouching fun _ => untouching_produce line _
  | conditional condition consequence alternative =>
    refine (w.eval scope condition).bind fun object => ?_
    split
    · exact (w.block scope consequence).mono (List.subset_append_left _ _)
    · refine WritesOnly.mono ?_ (List.subset_append_right _ _)
      cases alternative with
      | none => exact (untouching_pure _).writesOnly
      | some body => exact w.block scope body
  | call callee arguments line =>
    exact (w.eval scope callee).bind fun function =>
      (w.evalAll scope arguments).bind_untouching fun objects => w.call function objects line
  | index collection position line =>
    exact (w.eval scope collection).bind fun _ =>
      (w.eval scope position).bind_untouching fun _ => untouching_ofExcept line _

theorem evalAll_succ (w : Writes depth) (scope : Scope) (es : List Expr) :
    (Expr.evalAll (depth + 1) scope es).WritesOnly scope (Expr.letNamesAll es) := by
  cases es with
  | nil => exact (untouching_pure _).writesOnly
  | cons e es =>
    exact (w.eval scope e).bind fun _ => (w.evalAll scope es).bind_untouching fun _ => untouching_pure _

theorem evalEntries_succ (w : Writes depth) (scope : Scope) (held : List (Key × Object × Object))
    (entries : List (Expr × Expr)) :
    (Expr.evalEntries (depth + 1) scope held entries).WritesOnly scope (Expr.letNamesEntries entries) := by
  cases entries with
  | nil => exact (untouching_pure _).writesOnly
  | cons entry entries =>
    obtain ⟨key, value⟩ := entry
    refine (w.eval scope key).bind fun _ => (untouching_ofExcept _ _).bind_writesOnly fun _ => ?_
    exact (w.eval scope value).bind fun _ => w.evalEntries scope _ entries

theorem run_succ (w : Writes depth) (scope : Scope) (s : Statement) :
    (Statement.run (depth + 1) scope s).WritesOnly scope s.letNames := by
  cases s with
  | bind name value =>
    exact (w.eval scope value).bind fun object =>
      (writesOnly_assign scope name.name object).bind_untouching fun _ => untouching_pure _
  | leave value =>
    cases value with
    | none => exact (untouching_leave _).writesOnly
    | some value => exact (w.eval scope value).bind_untouching fun _ => untouching_leave _
  | expression value => exact w.eval scope value
  | block body => exact w.block scope body

theorem runAll_succ (w : Writes depth) (scope : Scope) (last : Object) (ss : List Statement) :
    (Statement.runAll (depth + 1) scope last ss).WritesOnly scope (Statement.letNamesAll ss) := by
  cases ss with
  | nil => exact (untouching_pure _).writesOnly
  | cons s ss => exact (w.run scope s).bind fun object => w.runAll scope object ss

/-- A call binds in its own scope, which is new, so it touches nothing. -/
theorem call_succ (w : Writes depth) (callee : Object) (arguments : List Object) (line : Nat) :
    (Object.call (depth + 1) callee arguments line).Untouching := by
  unfold Object.call
  split
  · next parameters body scope _ =>
    split
    · exact untouching_enclose_bind fun inner => (w.block inner body).catchReturn
    · exact untouching_fail _ _
  · exact untouching_produce line _
  · exact untouching_fail _ _

end Writes

/-- Within every bound evaluation writes to its scope alone. -/
theorem evalWrites (depth : Nat) : Writes depth := by
  induction depth with
  | zero =>
    constructor <;> intros
    case call => exact untouching_exhausted
    all_goals exact untouching_exhausted.writesOnly
  | succ depth w =>
    exact {
      eval := w.eval_succ
      evalAll := w.evalAll_succ
      evalEntries := w.evalEntries_succ
      run := w.run_succ
      runAll := w.runAll_succ
      call := w.call_succ }

end TinyScript
