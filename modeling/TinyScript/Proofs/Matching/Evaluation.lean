import TinyScript.Evaluation.Program
import TinyScript.Proofs.Matching.Operations

/-! # Evaluation in like stores

A program looks at no identity but to ask whether two objects are the same one, at no scope but to find names
in it, and at no name that does not occur in it or in a function it calls. So in like stores it does the same:
it completes within the same bounds, gives like results or fails alike, and leaves like stores
(`Program.run_alike`).

`first.Matches alike second` says so of two evaluations, where `alike` says when their results are. The matching
is one for the whole run, since it tells beforehand which of the objects and scopes to come stand for each
other.
-/

namespace TinyScript

/-- Completions of one kind with like results, or with one failure. -/
inductive Completion.Alike {α β : Type} (m : Matching) (alike : α → β → Prop) :
    Completion α → Completion β → Prop where
  | normal {value : α} {value' : β} (h : alike value value') :
      Completion.Alike m alike (.normal value) (.normal value')
  | returned {object object' : Object} (h : object.Alike m object') :
      Completion.Alike m alike (.returned object) (.returned object')
  | failed (failure : Failure) : Completion.Alike m alike (.failed failure) (.failed failure)

namespace Evaluation

variable {α β γ δ : Type} {m : Matching} {alike : α → β → Prop} {alike' : γ → δ → Prop}

/-- From like stores both evaluations complete alike and lead to like stores, or neither completes. -/
def Matches (m : Matching) (alike : α → β → Prop) (first : Evaluation α) (second : Evaluation β) : Prop :=
  ∀ store store', store.Alike m store' →
    Option.Rel (fun r r' => r.1.Alike m alike r'.1 ∧ r.2.Alike m r'.2) (first store) (second store')

theorem matches_pure {value : α} {value' : β} (h : alike value value') :
    (pure value : Evaluation α).Matches m alike (pure value') :=
  fun _ _ hs => .some ⟨.normal h, hs⟩

theorem matches_exhausted : (exhausted : Evaluation α).Matches m alike (exhausted : Evaluation β) :=
  fun _ _ _ => .none

theorem matches_fail (fault : Fault) (line : Nat) :
    (fail fault line : Evaluation α).Matches m alike (fail fault line : Evaluation β) :=
  fun _ _ hs => .some ⟨.failed _, hs⟩

theorem matches_leave {object object' : Object} (h : object.Alike m object') :
    (leave object : Evaluation α).Matches m alike (leave object' : Evaluation β) :=
  fun _ _ hs => .some ⟨.returned h, hs⟩

/-- Both sides take their next identities, which are related. -/
theorem matches_allocate {value value' : Value} (h : value.Alike m value') :
    (allocate value).Matches m (Object.Alike m) (allocate value') := by
  intro store store' hs
  obtain ⟨ho, ha⟩ := hs.allocate h
  exact .some ⟨.normal ho, ha⟩

/-- Only the names of the matching are bound alike on both sides. -/
theorem matches_lookup {scope scope' : Scope} (h : scope.Alike m scope') {name : String}
    (hn : m.names name) :
    (lookup scope name).Matches m (Option.Rel (Object.Alike m)) (lookup scope' name) :=
  fun _ _ hs => .some ⟨.normal (hs.get? h hn), hs⟩

theorem matches_assign {scope scope' : Scope} (h : scope.Alike m scope') (name : String)
    {object object' : Object} (ho : object.Alike m object') :
    (assign scope name object).Matches m (fun _ _ => True) (assign scope' name object') :=
  fun _ _ hs => .some ⟨.normal trivial, hs.set h name ho⟩

/-- The new scopes are related, whatever numbers they get. -/
theorem matches_enclose {outer outer' : Scope} (h : outer.Alike m outer') (names : List String)
    {objects objects' : List Object} (ho : Object.AlikeAll m objects objects') :
    (enclose outer (names.zip objects)).Matches m (Scope.Alike m)
      (enclose outer' (names.zip objects')) := by
  intro store store' hs
  obtain ⟨hi, ha⟩ := hs.enclose h
  exact .some ⟨.normal hi, ha.setAll hi names ho⟩

/-- The second parts of a sequence start with values that are alike, from stores that are. -/
theorem Matches.bind {first : Evaluation α} {second : Evaluation β} {next : α → Evaluation γ}
    {later : β → Evaluation δ} (hf : first.Matches m alike second)
    (hn : ∀ value value', alike value value' → (next value).Matches m alike' (later value')) :
    (first >>= next).Matches m alike' (second >>= later) := by
  intro store store' hs
  show Option.Rel _ (Evaluation.bind first next store) (Evaluation.bind second later store')
  have hr := hf store store' hs
  unfold Evaluation.bind
  generalize first store = completed at hr ⊢
  generalize second store' = completed' at hr ⊢
  cases hr with
  | none => exact .none
  | @some r r' hr =>
    obtain ⟨completion, after⟩ := r
    obtain ⟨completion', after'⟩ := r'
    obtain ⟨hc, ha⟩ := hr
    cases hc with
    | normal h => exact hn _ _ h after after' ha
    | returned h => exact .some ⟨.returned h, ha⟩
    | failed failure => exact .some ⟨.failed failure, ha⟩

/-- Both sides blame the same line. -/
theorem matches_ofExcept (line : Nat) {result : Except Fault α} {result' : Except Fault β}
    (h : Fault.AlikeOr alike result result') :
    (ofExcept line result).Matches m alike (ofExcept line result') := by
  cases h with
  | ok h => exact matches_pure h
  | error fault => exact matches_fail fault line

theorem matches_produce (line : Nat) {result result' : Except Fault Produced}
    (h : Fault.AlikeOr (Produced.Alike m) result result') :
    (produce line result).Matches m (Object.Alike m) (produce line result') := by
  refine (matches_ofExcept line h).bind fun produced produced' hp => ?_
  cases hp with
  | existing h => exact matches_pure h
  | fresh h => exact matches_allocate h

/-- A `return` is caught on both sides, with objects that are alike. -/
theorem Matches.catchReturn {first second : Evaluation Object}
    (hf : first.Matches m (Object.Alike m) second) :
    first.catchReturn.Matches m (Object.Alike m) second.catchReturn := by
  intro store store' hs
  have hr := hf store store' hs
  unfold Evaluation.catchReturn
  generalize first store = completed at hr ⊢
  generalize second store' = completed' at hr ⊢
  cases hr with
  | none => exact .none
  | @some r r' hr =>
    obtain ⟨completion, after⟩ := r
    obtain ⟨completion', after'⟩ := r'
    obtain ⟨hc, ha⟩ := hr
    cases hc with
    | normal h => exact .some ⟨.normal h, ha⟩
    | returned h => exact .some ⟨.normal h, ha⟩
    | failed failure => exact .some ⟨.failed failure, ha⟩

end Evaluation

open Evaluation

variable {m : Matching} {scope scope' : Scope}

/-- A name that is bound nowhere is looked for among the builtins on both sides. -/
theorem Ident.matches_resolve (hs : scope.Alike m scope') (name : Ident) (hn : m.names name.name) :
    (name.resolve scope).Matches m (Object.Alike m) (name.resolve scope') := by
  refine (matches_lookup hs hn).bind fun found found' hf => ?_
  cases hf with
  | some h => exact matches_pure h
  | none =>
    dsimp only
    cases Builtin.ofName? name.name with
    | some builtin => exact matches_allocate (.builtin builtin)
    | none => exact matches_fail _ _

variable [ByteHash]

/-- Every function of evaluation does the same in like stores, within a bound. -/
structure Matches (m : Matching) (depth : Nat) : Prop where
  eval : ∀ {scope scope'} (_ : Scope.Alike m scope scope') (e : Expr) (_ : ∀ name ∈ e.names, m.names name),
    (Expr.eval depth scope e).Matches m (Object.Alike m) (Expr.eval depth scope' e)
  evalAll : ∀ {scope scope'} (_ : Scope.Alike m scope scope') (es)
    (_ : ∀ name ∈ Expr.namesAll es, m.names name),
    (Expr.evalAll depth scope es).Matches m (Object.AlikeAll m) (Expr.evalAll depth scope' es)
  evalEntries : ∀ {scope scope'} (_ : Scope.Alike m scope scope') {held held'}
    (_ : Object.AlikeEntries m held held') (entries) (_ : ∀ name ∈ Expr.namesEntries entries, m.names name),
    (Expr.evalEntries depth scope held entries).Matches m (Object.AlikeEntries m)
      (Expr.evalEntries depth scope' held' entries)
  run : ∀ {scope scope'} (_ : Scope.Alike m scope scope') (s : Statement)
    (_ : ∀ name ∈ s.names, m.names name),
    (Statement.run depth scope s).Matches m (Object.Alike m) (Statement.run depth scope' s)
  runAll : ∀ {scope scope'} (_ : Scope.Alike m scope scope') {last last'} (_ : Object.Alike m last last') (ss)
    (_ : ∀ name ∈ Statement.namesAll ss, m.names name),
    (Statement.runAll depth scope last ss).Matches m (Object.Alike m) (Statement.runAll depth scope' last' ss)
  call : ∀ {callee callee'} (_ : Object.Alike m callee callee') {arguments arguments'}
    (_ : Object.AlikeAll m arguments arguments') (line),
    (Object.call depth callee arguments line).Matches m (Object.Alike m)
      (Object.call depth callee' arguments' line)

namespace Matches

variable {depth : Nat}

/-- The statements of a block, from null on. -/
theorem block (r : Matches m depth) (hs : scope.Alike m scope') (body : Block)
    (hn : ∀ name ∈ body.names, m.names name) :
    (Statement.runAll depth scope .null body.statements).Matches m (Object.Alike m)
      (Statement.runAll depth scope' .null body.statements) := by
  cases body with
  | mk statements line => exact r.runAll hs Object.alike_null statements hn

/-- An expression takes the names it mentions from related scopes. -/
theorem eval_succ (r : Matches m depth) (hs : scope.Alike m scope') (e : Expr)
    (hn : ∀ name ∈ e.names, m.names name) :
    (Expr.eval (depth + 1) scope e).Matches m (Object.Alike m) (Expr.eval (depth + 1) scope' e) := by
  cases e with
  | ident name => exact name.matches_resolve hs (hn _ List.mem_cons_self)
  | number value => exact matches_allocate (.number value)
  | boolean value => exact matches_pure (Object.alike_ofBool value)
  | string text => exact matches_allocate (.string text)
  | function parameters body => exact matches_allocate (.function parameters body hs hn)
  | array elements =>
    exact (r.evalAll hs elements hn).bind fun _ _ ho => matches_allocate (.array ho)
  | hash entries =>
    exact (r.evalEntries hs .nil entries hn).bind fun _ _ ho => matches_allocate (.hash ho)
  | unary op operand line =>
    exact (r.eval hs operand hn).bind fun _ _ ho => matches_produce line (op.alike_apply ho)
  | binary op left right line =>
    refine (r.eval hs left fun name h => hn name (List.mem_append_left _ h)).bind fun _ _ hl => ?_
    refine (r.eval hs right fun name h => hn name (List.mem_append_right _ h)).bind fun _ _ hr => ?_
    exact matches_produce line (op.alike_apply hl hr)
  | conditional condition consequence alternative =>
    refine (r.eval hs condition fun name h => hn name (List.mem_append_left _ h)).bind fun _ _ ho => ?_
    rw [ho.value.truthy_eq]
    split
    · refine r.block hs consequence fun name h => hn name ?_
      exact List.mem_append_right _ (List.mem_append_left _ h)
    · cases alternative with
      | none => exact matches_pure Object.alike_null
      | some body =>
        refine r.block hs body fun name h => hn name ?_
        exact List.mem_append_right _ (List.mem_append_right _ h)
  | call callee arguments line =>
    refine (r.eval hs callee fun name h => hn name (List.mem_append_left _ h)).bind fun _ _ hf => ?_
    refine (r.evalAll hs arguments fun name h => hn name (List.mem_append_right _ h)).bind fun _ _ ho => ?_
    exact r.call hf ho line
  | index collection position line =>
    refine (r.eval hs collection fun name h => hn name (List.mem_append_left _ h)).bind fun _ _ hc => ?_
    refine (r.eval hs position fun name h => hn name (List.mem_append_right _ h)).bind fun _ _ hp => ?_
    exact matches_ofExcept line (Object.alike_index hc hp)

theorem evalAll_succ (r : Matches m depth) (hs : scope.Alike m scope') (es : List Expr)
    (hn : ∀ name ∈ Expr.namesAll es, m.names name) :
    (Expr.evalAll (depth + 1) scope es).Matches m (Object.AlikeAll m)
      (Expr.evalAll (depth + 1) scope' es) := by
  cases es with
  | nil => exact matches_pure .nil
  | cons e es =>
    refine (r.eval hs e fun name h => hn name (List.mem_append_left _ h)).bind fun _ _ ho => ?_
    refine (r.evalAll hs es fun name h => hn name (List.mem_append_right _ h)).bind fun _ _ hos => ?_
    exact matches_pure (.cons ho hos)

/-- Names that are alike have the same key, so the entries of both hashes stand in the same order. -/
theorem evalEntries_succ (r : Matches m depth) (hs : scope.Alike m scope')
    {held held' : List (Key × Object × Object)} (hh : Object.AlikeEntries m held held')
    (entries : List (Expr × Expr)) (hn : ∀ name ∈ Expr.namesEntries entries, m.names name) :
    (Expr.evalEntries (depth + 1) scope held entries).Matches m (Object.AlikeEntries m)
      (Expr.evalEntries (depth + 1) scope' held' entries) := by
  cases entries with
  | nil => exact matches_pure hh
  | cons entry entries =>
    obtain ⟨keyExpr, valueExpr⟩ := entry
    have hk {name name' : Object} (ho : name.Alike m name') :
        (ofExcept keyExpr.line name.keyOrFault).Matches m Eq (ofExcept keyExpr.line name'.keyOrFault) := by
      rw [Object.alike_keyOrFault ho]
      cases name'.keyOrFault with
      | ok key => exact matches_pure rfl
      | error fault => exact matches_fail fault _
    refine (r.eval hs keyExpr fun name h => hn name (List.mem_append_left _ h)).bind fun _ _ ho => ?_
    refine (hk ho).bind fun key key' he => ?_
    subst he
    refine (r.eval hs valueExpr fun name h => hn name ?_).bind fun _ _ hv => ?_
    · exact List.mem_append_right _ (List.mem_append_left _ h)
    · refine r.evalEntries hs (hh.insert key ho hv) entries fun name h => hn name ?_
      exact List.mem_append_right _ (List.mem_append_right _ h)

theorem run_succ (r : Matches m depth) (hs : scope.Alike m scope') (s : Statement)
    (hn : ∀ name ∈ s.names, m.names name) :
    (Statement.run (depth + 1) scope s).Matches m (Object.Alike m) (Statement.run (depth + 1) scope' s) := by
  cases s with
  | bind name value =>
    refine (r.eval hs value fun name h => hn name (List.mem_cons_of_mem _ h)).bind fun _ _ ho => ?_
    exact (matches_assign hs name.name ho).bind fun _ _ _ => matches_pure Object.alike_null
  | leave value =>
    cases value with
    | none => exact matches_leave Object.alike_null
    | some value => exact (r.eval hs value hn).bind fun _ _ ho => matches_leave ho
  | expression value => exact r.eval hs value hn
  | block body => exact r.block hs body hn

theorem runAll_succ (r : Matches m depth) (hs : scope.Alike m scope') {last last' : Object}
    (hl : last.Alike m last') (ss : List Statement) (hn : ∀ name ∈ Statement.namesAll ss, m.names name) :
    (Statement.runAll (depth + 1) scope last ss).Matches m (Object.Alike m)
      (Statement.runAll (depth + 1) scope' last' ss) := by
  cases ss with
  | nil => exact matches_pure hl
  | cons s ss =>
    refine (r.run hs s fun name h => hn name (List.mem_append_left _ h)).bind fun _ _ ho => ?_
    exact r.runAll hs ho ss fun name h => hn name (List.mem_append_right _ h)

/-- A call goes on in the scope of the callee, which is related to that of the other callee. -/
theorem call_succ (r : Matches m depth) {callee callee' : Object} (hc : callee.Alike m callee')
    {arguments arguments' : List Object} (ha : Object.AlikeAll m arguments arguments') (line : Nat) :
    (Object.call (depth + 1) callee arguments line).Matches m (Object.Alike m)
      (Object.call (depth + 1) callee' arguments' line) := by
  obtain ⟨_, hv⟩ := hc
  cases hv with
  | function parameters body hs hn =>
    simp only [Object.call, ha.length_eq]
    split
    · refine (matches_enclose hs _ ha).bind fun inner inner' hi => ?_
      exact (r.block hi body fun name h => hn name (List.mem_append_right _ h)).catchReturn
    · exact matches_fail _ _
  | builtin builtin => exact matches_produce line (builtin.alike_apply ha)
  | _ => exact matches_fail _ _

end Matches

/-- Within every bound evaluation does the same in like stores. -/
theorem evalMatches (m : Matching) (depth : Nat) : Matches m depth := by
  induction depth with
  | zero => constructor <;> intros <;> exact matches_exhausted
  | succ depth r =>
    exact {
      eval := r.eval_succ
      evalAll := r.evalAll_succ
      evalEntries := r.evalEntries_succ
      run := r.run_succ
      runAll := r.runAll_succ
      call := r.call_succ }

/-- Ends with like objects, or with one failure. -/
inductive Program.EndsAlike (m : Matching) : Except Failure Object → Except Failure Object → Prop where
  | ok {object object' : Object} (h : object.Alike m object') :
      Program.EndsAlike m (.ok object) (.ok object')
  | error (failure : Failure) : Program.EndsAlike m (.error failure) (.error failure)

/-- **In like stores a program ends alike within every bound, and leaves like stores.** -/
theorem Program.run_alike {store store' : Store} (hst : store.Alike m store') (hs : scope.Alike m scope')
    {program : Program} (hn : ∀ name ∈ Statement.namesAll program, m.names name) (depth : Nat) :
    Option.Rel (fun r r' => EndsAlike m r.1 r'.1 ∧ r.2.Alike m r'.2)
      (Program.run depth scope program store) (Program.run depth scope' program store') := by
  have hr := (evalMatches m depth).runAll hs Object.alike_null program hn store store' hst
  unfold Program.run
  generalize Statement.runAll depth scope .null program store = first at hr ⊢
  generalize Statement.runAll depth scope' .null program store' = second at hr ⊢
  cases hr with
  | none => exact .none
  | @some r r' hr =>
    obtain ⟨completion, after⟩ := r
    obtain ⟨completion', after'⟩ := r'
    obtain ⟨hc, ha⟩ := hr
    cases hc with
    | normal h => exact .some ⟨.ok h, ha⟩
    | returned h => exact .some ⟨.ok h, ha⟩
    | failed failure => exact .some ⟨.error failure, ha⟩

end TinyScript
