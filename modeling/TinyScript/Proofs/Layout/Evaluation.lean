import TinyScript.Evaluation.Program
import TinyScript.Proofs.Layout.Operations

/-! # Evaluation does not depend on lines

A program looks at no line: it only passes the line of a node on to a failure that happens there. So a
relined program does in a relined store what the program does, relined: `Program.run_relined`.

`first.Relines f g second` says that `second` does on relined stores what `first` does, its result changed by
`g`. The closures in the store are relined with it, so a call of one is again a relined call.
-/

namespace TinyScript

variable {f : Nat → Nat}

/-- A failure on another line. -/
def Failure.relined (f : Nat → Nat) (failure : Failure) : Failure := ⟨failure.fault, f failure.line⟩

/-- A completion, on other lines and with another value. -/
def Completion.relined {α β : Type} (f : Nat → Nat) (g : α → β) : Completion α → Completion β
  | .normal value => .normal (g value)
  | .returned object => .returned (object.relined f)
  | .failed failure => .failed (failure.relined f)

namespace Evaluation

variable {α β γ δ : Type} {g : α → β} {h : γ → δ} {first : Evaluation α} {second : Evaluation β}

/-- The second evaluation does on other lines what the first one does. -/
def Relines (f : Nat → Nat) (g : α → β) (first : Evaluation α) (second : Evaluation β) : Prop :=
  ∀ store, second (store.relined f) = (first store).map fun r => (r.1.relined f g, r.2.relined f)

theorem relines_pure (value : α) : (pure value : Evaluation α).Relines f g (pure (g value)) :=
  fun _ => rfl

theorem relines_exhausted : (exhausted : Evaluation α).Relines f g exhausted :=
  fun _ => rfl

/-- A failure is on the line that its own line becomes. -/
theorem relines_fail (fault : Fault) (line : Nat) :
    (fail fault line : Evaluation α).Relines f g (fail fault (f line)) :=
  fun _ => rfl

theorem relines_leave (object : Object) :
    (leave object : Evaluation α).Relines f g (leave (object.relined f)) :=
  fun _ => rfl

/-- Sequences are the same but for lines if their parts are. -/
theorem Relines.bind {next : α → Evaluation γ} {later : β → Evaluation δ} (hf : first.Relines f g second)
    (hn : ∀ value, (next value).Relines f h (later (g value))) :
    (first >>= next).Relines f h (second >>= later) := by
  intro store
  show Evaluation.bind second later (store.relined f) = (Evaluation.bind first next store).map _
  unfold Evaluation.bind
  rw [hf store]
  cases first store with
  | none => rfl
  | some completed =>
    obtain ⟨completion, after⟩ := completed
    cases completion with
    | normal value => exact hn value after
    | returned object => rfl
    | failed failure => rfl

theorem relines_allocate (value : Value) :
    (allocate value).Relines f (Object.relined f) (allocate (value.relined f)) :=
  fun _ => rfl

/-- Names are found in the same scopes. -/
theorem relines_lookup (scope : Scope) (name : String) :
    (lookup scope name).Relines f (Option.map (Object.relined f)) (lookup scope name) := by
  intro store
  unfold lookup
  rw [store.get?_relined]
  rfl

theorem relines_assign (scope : Scope) (name : String) (object : Object) :
    (assign scope name object).Relines f id (assign scope name (object.relined f)) := by
  intro store
  unfold assign
  rw [store.set_relined]
  rfl

theorem relines_enclose (outer : Scope) (bindings : List (String × Object)) :
    (enclose outer bindings).Relines f id (enclose outer (Bindings.relined f bindings)) := by
  intro store
  unfold enclose
  rw [store.enclose_relined]
  exact congrArg (fun after => some (Completion.normal _, after)) (Store.setAll_relined _ _ bindings)

/-- What is at fault either way is at fault on the line of its node. -/
theorem relines_ofExcept (line : Nat) (result : Except Fault α) :
    (ofExcept line result).Relines f g (ofExcept (f line) (result.map g)) := by
  cases result <;> exact fun _ => rfl

/-- A fault is blamed on the new line. -/
theorem relines_produce (line : Nat) (result : Except Fault Produced) :
    (produce line result).Relines f (Object.relined f)
      (produce (f line) (result.map (Produced.relined f))) := by
  refine (relines_ofExcept line result).bind fun produced => ?_
  cases produced with
  | existing object => exact relines_pure object
  | fresh value => exact relines_allocate value

/-- A boundary catches the same. -/
theorem Relines.catchReturn {first second : Evaluation Object}
    (hf : first.Relines f (Object.relined f) second) :
    first.catchReturn.Relines f (Object.relined f) second.catchReturn := by
  intro store
  unfold Evaluation.catchReturn
  rw [hf store]
  cases first store with
  | none => rfl
  | some completed =>
    obtain ⟨completion, after⟩ := completed
    cases completion <;> rfl

end Evaluation

open Evaluation

/-- A name stands for the same object, and is blamed on its new line where it stands for none. -/
theorem Ident.relines_resolve (scope : Scope) (name : Ident) :
    (name.resolve scope).Relines f (Object.relined f) ((name.relined f).resolve scope) := by
  refine (relines_lookup scope name.name).bind fun found => ?_
  cases found with
  | some object => exact relines_pure object
  | none =>
    dsimp only [Ident.relined, Option.map_none]
    cases Builtin.ofName? name.name with
    | some builtin => exact relines_allocate _
    | none => exact relines_fail _ _

variable [ByteHash]

/-- Every function of evaluation does on other lines what it does, within a bound. -/
structure Relines (f : Nat → Nat) (depth : Nat) : Prop where
  eval : ∀ scope e,
    (Expr.eval depth scope e).Relines f (Object.relined f) (Expr.eval depth scope (e.relined f))
  evalAll : ∀ scope es,
    (Expr.evalAll depth scope es).Relines f (Object.relinedAll f)
      (Expr.evalAll depth scope (Expr.relinedAll f es))
  evalEntries : ∀ scope held entries,
    (Expr.evalEntries depth scope held entries).Relines f (Object.relinedEntries f)
      (Expr.evalEntries depth scope (Object.relinedEntries f held) (Expr.relinedEntries f entries))
  run : ∀ scope s,
    (Statement.run depth scope s).Relines f (Object.relined f) (Statement.run depth scope (s.relined f))
  runAll : ∀ scope last ss,
    (Statement.runAll depth scope last ss).Relines f (Object.relined f)
      (Statement.runAll depth scope (last.relined f) (Statement.relinedAll f ss))
  call : ∀ callee arguments line,
    (Object.call depth callee arguments line).Relines f (Object.relined f)
      (Object.call depth (callee.relined f) (Object.relinedAll f arguments) (f line))

namespace Relines

variable {depth : Nat}

/-- The statements of a block, from null on. -/
theorem block (r : Relines f depth) (scope : Scope) (body : Block) :
    (Statement.runAll depth scope .null body.statements).Relines f (Object.relined f)
      (Statement.runAll depth scope .null (body.relined f).statements) := by
  rw [Block.statements_relined]
  exact r.runAll scope .null body.statements

/-- Each construct evaluates its parts, which are the same but for lines, and combines what they give. -/
theorem eval_succ (r : Relines f depth) (scope : Scope) (e : Expr) :
    (Expr.eval (depth + 1) scope e).Relines f (Object.relined f)
      (Expr.eval (depth + 1) scope (e.relined f)) := by
  cases e with
  | ident name => exact name.relines_resolve scope
  | number value => exact relines_allocate _
  | boolean value => exact relines_pure (Object.ofBool value)
  | string text => exact relines_allocate _
  | function parameters body => exact relines_allocate _
  | array elements => exact (r.evalAll scope elements).bind fun _ => relines_allocate _
  | hash entries => exact (r.evalEntries scope [] entries).bind fun _ => relines_allocate _
  | unary op operand line =>
    refine (r.eval scope operand).bind fun object => ?_
    rw [op.apply_relined]
    exact relines_produce line _
  | binary op left right line =>
    refine (r.eval scope left).bind fun first => (r.eval scope right).bind fun second => ?_
    rw [op.apply_relined]
    exact relines_produce line _
  | conditional condition consequence alternative =>
    refine (r.eval scope condition).bind fun object => ?_
    rw [Object.value_relined, Value.truthy_relined]
    split
    · exact r.block scope consequence
    · cases alternative with
      | none => exact relines_pure Object.null
      | some body => exact r.block scope body
  | call callee arguments line =>
    exact (r.eval scope callee).bind fun function =>
      (r.evalAll scope arguments).bind fun objects => r.call function objects line
  | index collection position line =>
    refine (r.eval scope collection).bind fun first => (r.eval scope position).bind fun second => ?_
    rw [Object.index_relined]
    exact relines_ofExcept line _

theorem evalAll_succ (r : Relines f depth) (scope : Scope) (es : List Expr) :
    (Expr.evalAll (depth + 1) scope es).Relines f (Object.relinedAll f)
      (Expr.evalAll (depth + 1) scope (Expr.relinedAll f es)) := by
  cases es with
  | nil => exact relines_pure []
  | cons e es =>
    exact (r.eval scope e).bind fun object => (r.evalAll scope es).bind fun objects =>
      relines_pure (object :: objects)

theorem evalEntries_succ (r : Relines f depth) (scope : Scope) (held : List (Key × Object × Object))
    (entries : List (Expr × Expr)) :
    (Expr.evalEntries (depth + 1) scope held entries).Relines f (Object.relinedEntries f)
      (Expr.evalEntries (depth + 1) scope (Object.relinedEntries f held)
        (Expr.relinedEntries f entries)) := by
  cases entries with
  | nil => exact relines_pure held
  | cons entry entries =>
    obtain ⟨keyExpr, valueExpr⟩ := entry
    have hk (name : Object) : (ofExcept keyExpr.line name.keyOrFault).Relines f id
        (ofExcept (keyExpr.relined f).line (name.relined f).keyOrFault) := by
      rw [Expr.line_relined, Object.keyOrFault_relined]
      cases name.keyOrFault <;> exact fun _ => rfl
    refine (r.eval scope keyExpr).bind fun name => (hk name).bind fun key => ?_
    refine (r.eval scope valueExpr).bind fun value => ?_
    have hi : Object.relinedEntries f (Assoc.insert key (name, value) held) =
        Assoc.insert key (name.relined f, value.relined f) (Object.relinedEntries f held) := by
      rw [Object.relinedEntries_eq_map, Object.relinedEntries_eq_map]
      exact (Assoc.insert_mapValues _ _ _ _).symm
    have next := r.evalEntries scope (Assoc.insert key (name, value) held) entries
    rw [hi] at next
    exact next

theorem run_succ (r : Relines f depth) (scope : Scope) (s : Statement) :
    (Statement.run (depth + 1) scope s).Relines f (Object.relined f)
      (Statement.run (depth + 1) scope (s.relined f)) := by
  cases s with
  | bind name value =>
    exact (r.eval scope value).bind fun object => (relines_assign scope name.name object).bind fun _ =>
      relines_pure Object.null
  | leave value =>
    cases value with
    | none => exact relines_leave .null
    | some value => exact (r.eval scope value).bind fun object => relines_leave object
  | expression value => exact r.eval scope value
  | block body => exact r.block scope body

theorem runAll_succ (r : Relines f depth) (scope : Scope) (last : Object) (ss : List Statement) :
    (Statement.runAll (depth + 1) scope last ss).Relines f (Object.relined f)
      (Statement.runAll (depth + 1) scope (last.relined f) (Statement.relinedAll f ss)) := by
  cases ss with
  | nil => exact relines_pure last
  | cons s ss => exact (r.run scope s).bind fun object => r.runAll scope object ss

/-- The parameters are as many, and have the same names. -/
theorem call_function (r : Relines f depth) (parameters : List Ident) (body : Block) (scope : Scope)
    (arguments : List Object) (line : Nat) :
    (if arguments.length = parameters.length then
        enclose scope ((parameters.map Ident.name).zip arguments) >>= fun inner =>
          catchReturn (Statement.runAll depth inner .null body.statements)
      else fail (.argumentCount parameters.length arguments.length) line).Relines f (Object.relined f)
    (if (Object.relinedAll f arguments).length = (parameters.map (Ident.relined f)).length then
        enclose scope (((parameters.map (Ident.relined f)).map Ident.name).zip
          (Object.relinedAll f arguments)) >>= fun inner =>
          catchReturn (Statement.runAll depth inner .null (body.relined f).statements)
      else fail (.argumentCount (parameters.map (Ident.relined f)).length
        (Object.relinedAll f arguments).length) (f line)) := by
  have hb : ((parameters.map (Ident.relined f)).map Ident.name).zip (Object.relinedAll f arguments) =
      Bindings.relined f ((parameters.map Ident.name).zip arguments) := by
    rw [Ident.names_relined, Object.relinedAll_eq_map]
    exact List.zip_map_right
  rw [hb, Object.relinedAll_eq_map, List.length_map, List.length_map]
  split
  · exact (relines_enclose scope _).bind fun inner => (r.block inner body).catchReturn
  · exact relines_fail _ _

/-- What is called is of the same kind. -/
theorem call_succ (r : Relines f depth) (callee : Object) (arguments : List Object) (line : Nat) :
    (Object.call (depth + 1) callee arguments line).Relines f (Object.relined f)
      (Object.call (depth + 1) (callee.relined f) (Object.relinedAll f arguments) (f line)) := by
  obtain ⟨id, value⟩ := callee
  cases value with
  | function parameters body scope => exact r.call_function parameters body scope arguments line
  | builtin builtin =>
    show Evaluation.Relines f _ (produce line (builtin.apply arguments))
      (produce (f line) (builtin.apply (Object.relinedAll f arguments)))
    rw [builtin.apply_relined]
    exact relines_produce line _
  | _ => exact relines_fail _ _

end Relines

/-- Evaluation does not depend on lines within any bound. -/
theorem relines (f : Nat → Nat) (depth : Nat) : Relines f depth := by
  induction depth with
  | zero => constructor <;> intros <;> exact relines_exhausted
  | succ depth r =>
    exact {
      eval := r.eval_succ
      evalAll := r.evalAll_succ
      evalEntries := r.evalEntries_succ
      run := r.run_succ
      runAll := r.runAll_succ
      call := r.call_succ }

/-- How a program ends, on other lines. -/
def Program.relinedEnd (f : Nat → Nat) : Except Failure Object → Except Failure Object
  | .ok object => .ok (object.relined f)
  | .error failure => .error (failure.relined f)

/-- **A relined program does in a relined store what the program does, relined.** -/
theorem Program.run_relined (f : Nat → Nat) (depth : Nat) (scope : Scope) (program : Program)
    (store : Store) :
    Program.run depth scope (Statement.relinedAll f program) (store.relined f) =
      (Program.run depth scope program store).map fun r => (relinedEnd f r.1, r.2.relined f) := by
  have h : Statement.runAll depth scope .null (Statement.relinedAll f program) (store.relined f) = _ :=
    (relines f depth).runAll scope .null program store
  unfold Program.run
  rw [h]
  cases Statement.runAll depth scope .null program store with
  | none => rfl
  | some completed =>
    obtain ⟨completion, after⟩ := completed
    cases completion <;> rfl

end TinyScript
