import TinyScript.Proofs.Blame.Sites
import TinyScript.Proofs.Evaluation.Production
import TinyScript.Proofs.Evaluation.Writes
import TinyScript.Proofs.Matching.Objects
import TinyScript.Proofs.Session.Ends

/-! # Where evaluation fails

A failure has the line of the node at which it was met, and that node is a site of what is evaluated or of a function
that is called on the way. The functions that can be called are those that the store binds and those among the
operands, and all of them are made from nodes of what was evaluated before. So where the sites of these functions are
on certain lines, and the sites of what is evaluated are too, **evaluation fails on these lines alone and leaves no
other function behind** (`evalFailsOn`). A program that starts where nothing is bound fails at one of its own sites
(`Program.exists_site_of_run`).
-/

namespace TinyScript

section Definitions

variable (lines : Nat → Prop)

/-- A value whose functions have their sites on certain lines. -/
def Value.OnLines (value : Value) : Prop :=
  ∀ closure ∈ value.closures, Expr.OnLines lines closure.body.sites

/-- An object whose functions have their sites on certain lines. -/
def Object.OnLines (object : Object) : Prop :=
  ∀ closure ∈ object.closures, Expr.OnLines lines closure.body.sites

/-- A store that binds no function but with its sites on certain lines. -/
def Store.OnLines (store : Store) : Prop :=
  ∀ id, ∀ binding ∈ store.locals id, binding.2.OnLines lines

/-- A result of an operation whose functions have their sites on certain lines. -/
def Produced.OnLines : Produced → Prop
  | .existing object => object.OnLines lines
  | .fresh value => value.OnLines lines

/-- A completion with a value of some kind, or with a failure on one of certain lines. -/
def Completion.OnLines {α : Type} (wanted : α → Prop) : Completion α → Prop
  | .normal value => wanted value
  | .returned object => object.OnLines lines
  | .failed failure => lines failure.line

/-- An evaluation that fails on certain lines alone, where the functions of the store do, and leaves a store in which
they still do. -/
def Evaluation.FailsOn {α : Type} (wanted : α → Prop) (evaluation : Evaluation α) : Prop :=
  ∀ store completion after, store.OnLines lines → evaluation store = some (completion, after) →
    after.OnLines lines ∧ completion.OnLines lines wanted

end Definitions

variable {lines : Nat → Prop}

/-! ## Objects -/

/-- The identity of an object does not matter. -/
theorem Object.onLines_iff {object : Object} : object.OnLines lines ↔ object.value.OnLines lines := by
  cases object
  rfl

/-- The functions in an array are those in its elements. -/
theorem Value.onLines_array {elements : List Object} :
    (Value.array elements).OnLines lines ↔ ∀ element ∈ elements, element.OnLines lines := by
  show (∀ closure ∈ Object.closuresAll elements, _) ↔ _
  induction elements with
  | nil => simp [Object.closuresAll]
  | cons element elements ih =>
    rw [Object.closuresAll, List.forall_mem_append, List.forall_mem_cons, ih]
    rfl

/-- The functions in a hash are those in its names and its values. -/
theorem Value.onLines_hash {entries : List (Key × Object × Object)} :
    (Value.hash entries).OnLines lines ↔
      ∀ entry ∈ entries, entry.2.1.OnLines lines ∧ entry.2.2.OnLines lines := by
  show (∀ closure ∈ Object.closuresEntries entries, _) ↔ _
  induction entries with
  | nil => simp [Object.closuresEntries]
  | cons entry entries ih =>
    obtain ⟨key, name, value⟩ := entry
    rw [Object.closuresEntries, List.forall_mem_append, List.forall_mem_append, List.forall_mem_cons, ih, and_assoc]
    rfl

/-- Of a function the sites in its body count. -/
theorem Value.onLines_function {parameters : List Ident} {body : Block} {scope : Scope} :
    (Value.function parameters body scope).OnLines lines ↔ Expr.OnLines lines body.sites :=
  List.forall_mem_singleton

theorem Object.onLines_null : Object.null.OnLines lines := List.forall_mem_nil _

/-- Numbers, strings and truth values hold no function. -/
theorem Produced.Plain.onLines {produced : Produced} (h : produced.Plain) : produced.OnLines lines := by
  cases h <;> exact List.forall_mem_nil _

/-- What an array or a hash holds has the functions that it has. -/
theorem Object.OnLines.of_holds {collection object : Object} (hc : collection.OnLines lines)
    (h : collection.Holds object) : object.OnLines lines := by
  rw [Object.onLines_iff] at hc
  cases h with
  | element he hm =>
    rw [he] at hc
    exact Value.onLines_array.mp hc object hm
  | entry he hm =>
    rw [he] at hc
    exact (Value.onLines_hash.mp hc _ hm).2

/-- What is drawn from arguments has the functions that they have. -/
theorem Produced.Drawn.onLines {arguments : List Object} {produced : Produced} (h : produced.Drawn arguments)
    (ha : ∀ argument ∈ arguments, argument.OnLines lines) : produced.OnLines lines := by
  cases h with
  | number => exact List.forall_mem_nil _
  | null => exact Object.onLines_null
  | held hm h => exact (ha _ hm).of_holds h
  | array h =>
    refine Value.onLines_array.mpr ?_
    intro object hm
    rcases h object hm with hm | ⟨argument, hm, hh⟩
    · exact ha object hm
    · exact (ha argument hm).of_holds hh

/-! ## Evaluations -/

namespace Evaluation

variable {α β : Type} {wanted : α → Prop} {wanted' : β → Prop}

theorem failsOn_pure {value : α} (h : wanted value) : (pure value : Evaluation α).FailsOn lines wanted := by
  rintro store _ _ hs ⟨⟩
  exact ⟨hs, h⟩

theorem failsOn_exhausted : (exhausted : Evaluation α).FailsOn lines wanted := by
  intro store completion after hs h
  cases h

/-- A failure is on its own line. -/
theorem failsOn_fail (fault : Fault) {line : Nat} (h : lines line) :
    (fail fault line : Evaluation α).FailsOn lines wanted := by
  rintro store _ _ hs ⟨⟩
  exact ⟨hs, h⟩

theorem failsOn_leave {object : Object} (h : object.OnLines lines) :
    (leave object : Evaluation α).FailsOn lines wanted := by
  rintro store _ _ hs ⟨⟩
  exact ⟨hs, h⟩

theorem failsOn_allocate {value : Value} (h : value.OnLines lines) :
    (allocate value).FailsOn lines (Object.OnLines lines) := by
  rintro store _ _ hs ⟨⟩
  exact ⟨hs, h⟩

/-- What is bound in the store has its sites on the lines already. -/
theorem failsOn_lookup (scope : Scope) (name : String) :
    (lookup scope name).FailsOn lines fun found => ∀ object ∈ found, object.OnLines lines := by
  rintro store _ _ hs ⟨⟩
  refine ⟨hs, ?_⟩
  intro object hm
  obtain ⟨id, hb⟩ := Store.exists_mem_of_get? hm
  exact hs id _ hb

/-- Binding an object with its sites on the lines keeps the store in order. -/
theorem failsOn_assign (scope : Scope) (name : String) {object : Object} (h : object.OnLines lines) :
    (assign scope name object).FailsOn lines fun _ => True := by
  rintro store _ _ hs ⟨⟩
  refine ⟨?_, trivial⟩
  intro id binding hm
  rcases Store.mem_locals_set hm with rfl | hm
  · exact h
  · exact hs id binding hm

/-- A new scope binds the arguments alone. -/
theorem failsOn_enclose (outer : Scope) {bindings : List (String × Object)}
    (h : ∀ binding ∈ bindings, binding.2.OnLines lines) :
    (enclose outer bindings).FailsOn lines fun _ => True := by
  rintro store _ _ hs ⟨⟩
  refine ⟨?_, trivial⟩
  intro id binding hm
  rcases Store.mem_locals_setAll hm with hm | hm
  · exact h binding hm
  · have hl : (store.enclose outer).2.locals id = store.locals id := Store.locals_enclose outer
    exact hs id binding (hl ▸ hm)

/-- In a sequence each part fails on the lines, and the second one is given what the first one was wanted to give. -/
theorem FailsOn.bind {first : Evaluation α} {next : α → Evaluation β} (hf : first.FailsOn lines wanted)
    (hn : ∀ value, wanted value → (next value).FailsOn lines wanted') :
    (first >>= next).FailsOn lines wanted' := by
  intro store completion after hs h
  rcases bind_eq_some h with ⟨value, middle, h1, h2⟩ | ⟨object, h1, rfl⟩ | ⟨failure, h1, rfl⟩
  · obtain ⟨hm, hv⟩ := hf store _ middle hs h1
    exact hn value hv middle completion after hm h2
  · exact hf store _ after hs h1
  · exact hf store _ after hs h1

/-- A fault is blamed on the line that is given with it. -/
theorem failsOn_ofExcept {line : Nat} (hl : lines line) {result : Except Fault α}
    (h : ∀ value, result = .ok value → wanted value) : (ofExcept line result).FailsOn lines wanted := by
  cases result with
  | ok value => exact failsOn_pure (h value rfl)
  | error fault => exact failsOn_fail fault hl

theorem failsOn_produce {line : Nat} (hl : lines line) {result : Except Fault Produced}
    (h : ∀ produced, result = .ok produced → produced.OnLines lines) :
    (produce line result).FailsOn lines (Object.OnLines lines) := by
  apply (failsOn_ofExcept hl h).bind
  intro produced hp
  cases produced with
  | existing object => exact failsOn_pure hp
  | fresh value => exact failsOn_allocate hp

/-- A `return` that is caught gives an object of the same functions. -/
theorem FailsOn.catchReturn {evaluation : Evaluation Object}
    (h : evaluation.FailsOn lines (Object.OnLines lines)) :
    evaluation.catchReturn.FailsOn lines (Object.OnLines lines) := by
  intro store completion after hs he
  rcases catchReturn_eq_some he with ⟨object, hr, rfl⟩ | hr
  · exact h store (.returned object) after hs hr
  · exact h store completion after hs hr

end Evaluation

open Evaluation

/-- A name that is not bound is blamed on its own line. -/
theorem Ident.failsOn_resolve (scope : Scope) {name : Ident} (h : lines name.line) :
    (name.resolve scope).FailsOn lines (Object.OnLines lines) := by
  apply (failsOn_lookup scope name.name).bind
  intro found hf
  cases found with
  | some object => exact failsOn_pure (hf object rfl)
  | none =>
    dsimp only
    cases Builtin.ofName? name.name with
    | some builtin => exact failsOn_allocate (List.forall_mem_nil _)
    | none => exact failsOn_fail _ h

variable [ByteHash]

/-- Evaluation fails on certain lines alone where all sites are on them, within a bound on its depth. -/
structure EvalFailsOn (lines : Nat → Prop) (depth : Nat) : Prop where
  eval : ∀ scope {e : Expr}, Expr.OnLines lines e.sites →
    (Expr.eval depth scope e).FailsOn lines (Object.OnLines lines)
  evalAll : ∀ scope {es}, Expr.OnLines lines (Expr.sitesAll es) →
    (Expr.evalAll depth scope es).FailsOn lines fun objects => ∀ object ∈ objects, object.OnLines lines
  evalEntries : ∀ scope {held entries}, (Value.hash held).OnLines lines →
    Expr.OnLines lines (Expr.sitesEntries entries) →
      (Expr.evalEntries depth scope held entries).FailsOn lines fun held => (Value.hash held).OnLines lines
  run : ∀ scope {s : Statement}, Expr.OnLines lines s.sites →
    (Statement.run depth scope s).FailsOn lines (Object.OnLines lines)
  runAll : ∀ scope {last : Object} {ss}, last.OnLines lines → Expr.OnLines lines (Statement.sitesAll ss) →
    (Statement.runAll depth scope last ss).FailsOn lines (Object.OnLines lines)
  call : ∀ {callee : Object} {arguments line}, callee.OnLines lines →
    (∀ argument ∈ arguments, Object.OnLines lines argument) → lines line →
      (Object.call depth callee arguments line).FailsOn lines (Object.OnLines lines)

namespace EvalFailsOn

variable {depth : Nat} (r : EvalFailsOn lines depth) (scope : Scope)

include r

theorem block {body : Block} (h : Expr.OnLines lines body.sites) :
    (Statement.runAll depth scope .null body.statements).FailsOn lines (Object.OnLines lines) := by
  obtain ⟨statements, line⟩ := body
  exact r.runAll scope Object.onLines_null h

/-- Every operator, call and index is blamed on its own line, which is one of the sites of the expression. -/
theorem eval_succ {e : Expr} (h : Expr.OnLines lines e.sites) :
    (Expr.eval (depth + 1) scope e).FailsOn lines (Object.OnLines lines) := by
  cases e with
  | ident name => exact name.failsOn_resolve scope (Expr.OnLines.cons_iff.mp h).1
  | number value => exact failsOn_allocate (List.forall_mem_nil _)
  | boolean value => exact failsOn_pure (List.forall_mem_nil _)
  | string text => exact failsOn_allocate (List.forall_mem_nil _)
  | function parameters body => exact failsOn_allocate (Value.onLines_function.mpr h)
  | array elements =>
    apply (r.evalAll scope h).bind
    intro objects ho
    exact failsOn_allocate (Value.onLines_array.mpr ho)
  | hash entries =>
    have nothing : (Value.hash []).OnLines lines := Value.onLines_hash.mpr (List.forall_mem_nil _)
    apply (r.evalEntries scope nothing h).bind
    intro held hh
    exact failsOn_allocate hh
  | unary op operand line =>
    obtain ⟨hl, ho⟩ := Expr.OnLines.cons_iff.mp h
    apply (r.eval scope ho).bind
    intro object _
    exact failsOn_produce hl fun _ he => (UnaryOp.plain_apply he).onLines
  | binary op left right line =>
    obtain ⟨hl, ho⟩ := Expr.OnLines.cons_iff.mp h
    obtain ⟨hleft, hright⟩ := Expr.OnLines.append_iff.mp ho
    apply (r.eval scope hleft).bind
    intro first _
    apply (r.eval scope hright).bind
    intro second _
    exact failsOn_produce hl fun _ he => (BinaryOp.plain_apply he).onLines
  | conditional condition consequence alternative =>
    obtain ⟨hc, hb⟩ := Expr.OnLines.append_iff.mp h
    obtain ⟨hthen, helse⟩ := Expr.OnLines.append_iff.mp hb
    apply (r.eval scope hc).bind
    intro object _
    split
    · exact r.block scope hthen
    · cases alternative with
      | none => exact failsOn_pure Object.onLines_null
      | some body => exact r.block scope helse
  | call callee arguments line =>
    obtain ⟨hl, ho⟩ := Expr.OnLines.cons_iff.mp h
    obtain ⟨hc, ha⟩ := Expr.OnLines.append_iff.mp ho
    apply (r.eval scope hc).bind
    intro function hf
    apply (r.evalAll scope ha).bind
    intro objects hos
    exact r.call hf hos hl
  | index collection position line =>
    obtain ⟨hl, ho⟩ := Expr.OnLines.cons_iff.mp h
    obtain ⟨hc, hp⟩ := Expr.OnLines.append_iff.mp ho
    apply (r.eval scope hc).bind
    intro first hf
    apply (r.eval scope hp).bind
    intro second _
    apply failsOn_ofExcept hl
    intro object he
    rcases Object.holds_of_index he with rfl | hh
    · exact Object.onLines_null
    · exact hf.of_holds hh

theorem evalAll_succ {es : List Expr} (h : Expr.OnLines lines (Expr.sitesAll es)) :
    (Expr.evalAll (depth + 1) scope es).FailsOn lines fun objects => ∀ object ∈ objects, object.OnLines lines := by
  cases es with
  | nil => exact failsOn_pure (List.forall_mem_nil _)
  | cons e es =>
    obtain ⟨he, hes⟩ := Expr.OnLines.append_iff.mp h
    apply (r.eval scope he).bind
    intro object ho
    apply (r.evalAll scope hes).bind
    intro objects hos
    exact failsOn_pure (List.forall_mem_cons.mpr ⟨ho, hos⟩)

theorem evalEntries_succ {held : List (Key × Object × Object)} {entries : List (Expr × Expr)}
    (hh : (Value.hash held).OnLines lines) (h : Expr.OnLines lines (Expr.sitesEntries entries)) :
    (Expr.evalEntries (depth + 1) scope held entries).FailsOn lines fun held =>
      (Value.hash held).OnLines lines := by
  cases entries with
  | nil => exact failsOn_pure hh
  | cons entry entries =>
    obtain ⟨keyExpr, valueExpr⟩ := entry
    obtain ⟨hl, ho⟩ := Expr.OnLines.cons_iff.mp h
    obtain ⟨hk, ho⟩ := Expr.OnLines.append_iff.mp ho
    obtain ⟨hv, hes⟩ := Expr.OnLines.append_iff.mp ho
    apply (r.eval scope hk).bind
    intro name hn
    apply (failsOn_ofExcept hl fun _ _ => trivial : FailsOn lines (fun _ => True) _).bind
    intro key _
    apply (r.eval scope hv).bind
    intro value hvalue
    refine r.evalEntries scope (Value.onLines_hash.mpr ?_) hes
    intro entry hm
    rcases Assoc.mem_insert hm with rfl | hm
    · exact ⟨hn, hvalue⟩
    · exact Value.onLines_hash.mp hh entry hm

theorem run_succ {s : Statement} (h : Expr.OnLines lines s.sites) :
    (Statement.run (depth + 1) scope s).FailsOn lines (Object.OnLines lines) := by
  cases s with
  | bind name value =>
    apply (r.eval scope h).bind
    intro object ho
    apply (failsOn_assign scope name.name ho).bind
    intro _ _
    exact failsOn_pure Object.onLines_null
  | leave value =>
    cases value with
    | none => exact failsOn_leave Object.onLines_null
    | some value =>
      apply (r.eval scope h).bind
      intro object ho
      exact failsOn_leave ho
  | expression value => exact r.eval scope h
  | block body => exact r.block scope h

theorem runAll_succ {last : Object} {ss : List Statement} (hlast : last.OnLines lines)
    (h : Expr.OnLines lines (Statement.sitesAll ss)) :
    (Statement.runAll (depth + 1) scope last ss).FailsOn lines (Object.OnLines lines) := by
  cases ss with
  | nil => exact failsOn_pure hlast
  | cons s ss =>
    obtain ⟨hs, hss⟩ := Expr.OnLines.append_iff.mp h
    apply (r.run scope hs).bind
    intro object ho
    exact r.runAll scope ho hss

omit scope in
/-- A call fails on its own line, or on a line of the body of what is called. -/
theorem call_succ {callee : Object} {arguments : List Object} {line : Nat} (hc : callee.OnLines lines)
    (ha : ∀ argument ∈ arguments, Object.OnLines lines argument) (hl : lines line) :
    (Object.call (depth + 1) callee arguments line).FailsOn lines (Object.OnLines lines) := by
  unfold Object.call
  split
  · next parameters body scope hv =>
    -- the body was written elsewhere: that its sites are on the lines is known of the function, not of the call
    rw [Object.onLines_iff, hv, Value.onLines_function] at hc
    split
    · have hb : ∀ binding ∈ (parameters.map Ident.name).zip arguments, binding.2.OnLines lines :=
        fun binding hm => ha _ (List.of_mem_zip hm).2
      apply (failsOn_enclose scope hb).bind
      intro inner _
      exact (r.block inner hc).catchReturn
    · exact failsOn_fail _ hl
  · exact failsOn_produce hl fun _ he => (Builtin.drawn_apply he).onLines ha
  · exact failsOn_fail _ hl

end EvalFailsOn

/-- **Evaluation fails on certain lines alone where all sites are on them**, within every bound on its depth. -/
theorem evalFailsOn (lines : Nat → Prop) (depth : Nat) : EvalFailsOn lines depth := by
  induction depth with
  | zero => constructor <;> intros <;> exact failsOn_exhausted
  | succ depth r =>
    exact {
      eval := r.eval_succ
      evalAll := r.evalAll_succ
      evalEntries := r.evalEntries_succ
      run := r.run_succ
      runAll := r.runAll_succ
      call := r.call_succ }

/-- **A program that fails where no function is bound fails at one of its sites**: the failure has that node's
line. -/
theorem Program.exists_site_of_run {depth : Nat} {scope : Scope} {program : Program} {store after : Store}
    {failure : Failure} (hs : ∀ id, store.locals id = [])
    (h : Program.run depth scope program store = some (.error failure, after)) :
    ∃ site ∈ Statement.sitesAll program, site.line = failure.line := by
  obtain ⟨completion, hr, he⟩ := Program.exists_completion h
  obtain rfl := Completion.eq_of_ended_error he
  -- where nothing is bound, no function can be called but those of the program itself
  let lines (line : Nat) : Prop := ∃ site ∈ Statement.sitesAll program, site.line = line
  have hstore : store.OnLines lines := by
    intro id binding hm
    rw [hs id] at hm
    cases hm
  have hsites : Expr.OnLines lines (Statement.sitesAll program) := fun site hm => ⟨site, hm, rfl⟩
  have hf := (evalFailsOn lines depth).runAll scope Object.onLines_null hsites
  exact (hf store _ after hstore hr).2

end TinyScript
