import TinyScript.Proofs.Nesting.Flattening
import TinyScript.Proofs.Recoding.Evaluation

/-! # Flattened programs do the same

A program and what it is flattened to correspond (`Flattens.runAll`): from stores that are the same but for the nested
blocks in functions, each completes if the other does, and alike. A statement corresponds to the statements that it is
flattened to. It is by induction on the bound, as calls run code that is in no part of the program; the statements of
one bound are by recursion on how blocks are nested, as the statements of a block are run within the bound of the block
once its braces are taken away.
-/

namespace TinyScript

open Evaluation

theorem Ident.corresponds_resolve {r : Recoding} {depth : Nat} (scope : Scope) (name : Ident) :
    Corresponds r (Object.recoded r) depth (fun _ => name.resolve scope) fun _ => name.resolve scope := by
  refine (corresponds_lookup scope name.name).bind fun found => ?_
  cases found with
  | some object => exact corresponds_pure object
  | none =>
    dsimp only [Option.map_none]
    cases Builtin.ofName? name.name with
    | some builtin => exact corresponds_allocate _
    | none => exact corresponds_fail _ _

variable [ByteHash]

namespace Statement

variable (scope : Scope) (last : Object) (ss : List Statement)

/-- The first statement is run within the same bound, and so are the others. -/
theorem runAll_cons_within_bind (depth : Nat) (s : Statement) :
    (runAll depth scope last (s :: ss)).Within (run depth scope s >>= fun object => runAll depth scope object ss) := by
  cases depth with
  | zero => exact exhausted_within _
  | succ depth =>
    exact (run_within (Nat.le_succ depth) scope s).bind fun object => runAll_within (Nat.le_succ depth) scope object ss

/-- One statement is run alone within the same bound. -/
theorem runAll_singleton_within (depth : Nat) (s : Statement) :
    (runAll depth scope last [s]).Within (run depth scope s) := by
  intro store completed h
  obtain ⟨completion, after⟩ := completed
  cases depth with
  | zero => cases h
  | succ depth =>
    refine run_within (Nat.le_succ depth) scope s store _ ?_
    rcases bind_eq_some_or_abrupt h with ⟨object, middle, hr, hl⟩ | ⟨abrupt, hr, rfl⟩
    · cases depth with
      | zero => cases hl
      | succ depth =>
        cases hl
        exact hr
    · exact hr

end Statement

/-- Within a bound all that is evaluated corresponds to what it is flattened to. -/
structure Flattens (depth : Nat) : Prop where
  eval : ∀ scope e, Corresponds .flattening (Object.recoded .flattening) depth (Expr.eval · scope e)
    (Expr.eval · scope e.flattened)
  evalAll : ∀ scope es, Corresponds .flattening (Object.recodedAll .flattening) depth (Expr.evalAll · scope es)
    (Expr.evalAll · scope (Expr.flattenedAll es))
  evalEntries : ∀ scope held entries, Corresponds .flattening (Object.recodedEntries .flattening) depth
    (Expr.evalEntries · scope held entries)
    (Expr.evalEntries · scope (Object.recodedEntries .flattening held) (Expr.flattenedEntries entries))
  runAll : ∀ scope last ss, Corresponds .flattening (Object.recoded .flattening) depth (Statement.runAll · scope last ss)
    (Statement.runAll · scope (last.recoded .flattening) (Statement.flattenedAll ss))
  call : ∀ callee arguments line, Corresponds .flattening (Object.recoded .flattening) depth
    (Object.call · callee arguments line)
    (Object.call · (callee.recoded .flattening) (Object.recodedAll .flattening arguments) line)

namespace Flattens

variable {depth : Nat}

/-- The statements of a block, from null on. -/
theorem block (f : Flattens depth) (scope : Scope) (body : Block) :
    Corresponds .flattening (Object.recoded .flattening) depth
      (Statement.runAll · scope .null body.statements) (Statement.runAll · scope .null body.flattened.statements) := by
  rw [Block.statements_flattened]
  exact f.runAll scope .null body.statements

/-- The parts of an expression are evaluated within the smaller bound. -/
theorem eval_succ (f : Flattens depth) (scope : Scope) (e : Expr) :
    Corresponds .flattening (Object.recoded .flattening) (depth + 1) (Expr.eval · scope e)
      (Expr.eval · scope e.flattened) := by
  refine Corresponds.of_succ ?_
  cases e with
  | ident name => exact name.corresponds_resolve scope
  | number value => exact corresponds_allocate _
  | boolean value => exact corresponds_pure (Object.ofBool value)
  | string text => exact corresponds_allocate _
  | function parameters body => exact corresponds_allocate _
  | array elements => exact (f.evalAll scope elements).bind fun _ => corresponds_allocate _
  | hash entries => exact (f.evalEntries scope [] entries).bind fun _ => corresponds_allocate _
  | unary op operand line =>
    refine (f.eval scope operand).bind fun object => ?_
    rw [op.apply_recoded]
    exact corresponds_produce line _
  | binary op left right line =>
    refine (f.eval scope left).bind fun first => (f.eval scope right).bind fun second => ?_
    rw [op.apply_recoded]
    exact corresponds_produce line _
  | conditional condition consequence alternative =>
    refine (f.eval scope condition).bind fun object => ?_
    rw [Object.value_recoded, Value.truthy_recoded]
    split
    · exact f.block scope consequence
    · cases alternative with
      | none => exact corresponds_pure Object.null
      | some body => exact f.block scope body
  | call callee arguments line =>
    exact (f.eval scope callee).bind fun function =>
      (f.evalAll scope arguments).bind fun objects => f.call function objects line
  | index collection position line =>
    refine (f.eval scope collection).bind fun first => (f.eval scope position).bind fun second => ?_
    rw [Object.index_recoded]
    exact corresponds_ofExcept line _

theorem evalAll_succ (f : Flattens depth) (scope : Scope) (es : List Expr) :
    Corresponds .flattening (Object.recodedAll .flattening) (depth + 1) (Expr.evalAll · scope es)
      (Expr.evalAll · scope (Expr.flattenedAll es)) := by
  refine Corresponds.of_succ ?_
  cases es with
  | nil => exact corresponds_pure []
  | cons e es =>
    exact (f.eval scope e).bind fun object => (f.evalAll scope es).bind fun objects =>
      corresponds_pure (object :: objects)

theorem evalEntries_succ (f : Flattens depth) (scope : Scope) (held : List (Key × Object × Object))
    (entries : List (Expr × Expr)) :
    Corresponds .flattening (Object.recodedEntries .flattening) (depth + 1) (Expr.evalEntries · scope held entries)
      (Expr.evalEntries · scope (Object.recodedEntries .flattening held) (Expr.flattenedEntries entries)) := by
  refine Corresponds.of_succ ?_
  cases entries with
  | nil => exact corresponds_pure held
  | cons entry entries =>
    obtain ⟨keyExpr, valueExpr⟩ := entry
    have hk (name : Object) : Corresponds .flattening id depth (fun _ => ofExcept keyExpr.line name.keyOrFault)
        fun _ => ofExcept keyExpr.flattened.line (name.recoded .flattening).keyOrFault := by
      rw [Expr.line_flattened, Object.keyOrFault_recoded]
      cases name.keyOrFault <;> exact corresponds_const fun _ => rfl
    refine (f.eval scope keyExpr).bind fun name => (hk name).bind fun key => ?_
    refine (f.eval scope valueExpr).bind fun value => ?_
    have hi : Object.recodedEntries .flattening (Assoc.insert key (name, value) held) =
        Assoc.insert key (name.recoded .flattening, value.recoded .flattening)
          (Object.recodedEntries .flattening held) := by
      rw [Object.recodedEntries_eq_map, Object.recodedEntries_eq_map]
      exact (Assoc.insert_mapValues _ _ _ _).symm
    have hn := f.evalEntries scope (Assoc.insert key (name, value) held) entries
    rw [hi] at hn
    exact hn

/-- The body of the callee is run within the smaller bound, where flattening is known to keep it. -/
theorem call_succ (f : Flattens depth) (callee : Object) (arguments : List Object) (line : Nat) :
    Corresponds .flattening (Object.recoded .flattening) (depth + 1) (Object.call · callee arguments line)
      (Object.call · (callee.recoded .flattening) (Object.recodedAll .flattening arguments) line) := by
  refine Corresponds.of_succ ?_
  obtain ⟨id, value⟩ := callee
  cases value with
  | function parameters body scope =>
    have hl : (Object.recodedAll .flattening arguments).length = arguments.length := by
      rw [Object.recodedAll_eq_map, List.length_map]
    have hz : (parameters.map Ident.name).zip (Object.recodedAll .flattening arguments) =
        Bindings.recoded .flattening ((parameters.map Ident.name).zip arguments) := by
      rw [Object.recodedAll_eq_map]
      exact List.zip_map_right
    show Corresponds _ _ _ (fun depth => Object.call (depth + 1) ⟨id, .function parameters body scope⟩ arguments line)
      fun depth => if (Object.recodedAll .flattening arguments).length = parameters.length then
          enclose scope ((parameters.map Ident.name).zip (Object.recodedAll .flattening arguments)) >>= fun inner =>
            catchReturn (Statement.runAll depth inner .null body.flattened.statements)
        else fail (.argumentCount parameters.length (Object.recodedAll .flattening arguments).length) line
    rw [hl, hz]
    simp only [Object.call]
    by_cases ha : arguments.length = parameters.length
    · simp only [if_pos ha]
      exact (corresponds_enclose scope _).bind fun inner => (f.block inner body).catchReturn
    · simp only [if_neg ha]
      exact corresponds_fail _ _
  | builtin builtin =>
    show Corresponds _ _ _ (fun _ => produce line (builtin.apply arguments))
      fun _ => produce line (builtin.apply (Object.recodedAll .flattening arguments))
    rw [builtin.apply_recoded]
    exact corresponds_produce line _
  | _ => exact corresponds_fail _ _

/-! ## Statements -/

/-- A statement that is flattened to one statement corresponds to that one alone. -/
theorem singleton {scope : Scope} {s s' : Statement} (last : Object)
    (h : Corresponds .flattening (Object.recoded .flattening) depth (Statement.run · scope s)
      (Statement.run · scope s')) :
    Corresponds .flattening (Object.recoded .flattening) depth (Statement.run · scope s)
      (Statement.runAll · scope last [s']) := by
  refine h.replace_right (fun hs => ?_) (Statement.runAll_singleton_within scope last depth s')
  exact (Statement.persists_runAll scope last [s']).settles
    (Statement.completes_runAll_singleton_iff.mpr hs.completes)

/-- Statements correspond to those that the first and the others are flattened to. -/
theorem cons {scope : Scope} {s : Statement} {ss flat others : List Statement} {last last' : Object}
    (h : Corresponds .flattening (Object.recoded .flattening) depth (Statement.run · scope s)
      (Statement.runAll · scope last' flat))
    (hs : ∀ object, Corresponds .flattening (Object.recoded .flattening) depth (Statement.runAll · scope object ss)
      (Statement.runAll · scope (object.recoded .flattening) others)) :
    Corresponds .flattening (Object.recoded .flattening) depth (Statement.runAll · scope last (s :: ss))
      (Statement.runAll · scope last' (flat ++ others)) := by
  have hb : Corresponds .flattening (Object.recoded .flattening) depth
      (fun depth => Statement.run depth scope s >>= fun object => Statement.runAll depth scope object ss)
      fun depth => Statement.runAll depth scope last' flat >>= fun object => Statement.runAll depth scope object others :=
    h.bind hs
  refine (hb.replace_left (fun hs => hs.of_succ) ?_).replace_right (fun hs => ?_) ?_
  · exact Statement.runAll_cons_within_bind scope last ss depth s
  · obtain ⟨bound, hb⟩ := hs.completes
    exact (Statement.persists_runAll scope last' (flat ++ others)).settles
      ⟨bound + bound, Statement.bind_within_runAll_append scope last' flat others bound bound _ _ hb⟩
  · exact Statement.runAll_append_within_bind scope last' flat others depth

mutual

/-- A statement that is a nested block is run as its statements in a row. -/
theorem run_succ (f : Flattens depth) (scope : Scope) (last : Object) : ∀ s : Statement,
    Corresponds .flattening (Object.recoded .flattening) (depth + 1) (Statement.run · scope s)
      (Statement.runAll · scope last s.flattened)
  | .bind name value line => by
    refine singleton last (Corresponds.of_succ ?_)
    exact (f.eval scope value).bind fun object => (corresponds_assign scope name.name object).bind fun _ =>
      corresponds_pure Object.null
  | .leave none line => singleton last (Corresponds.of_succ (corresponds_leave Object.null))
  | .leave (some value) line =>
    singleton last (Corresponds.of_succ ((f.eval scope value).bind fun object => corresponds_leave object))
  | .expression value line => singleton last (Corresponds.of_succ (f.eval scope value))
  | .block (.mk [] line) => singleton last (Corresponds.of_succ (f.runAll scope .null []))
  | .block (.mk (s :: ss) line) => by
    have hs : Corresponds .flattening (Object.recoded .flattening) (depth + 1)
        (Statement.runAll · scope .null (s :: ss))
        (Statement.runAll · scope last (s.flattened ++ Statement.flattenedAll ss)) :=
      cons (f.run_succ scope last s) fun object => f.runAll_succ scope object ss
    refine hs.replace_left (fun hs => hs.of_succ) ?_
    exact Statement.runAll_within (Nat.le_succ depth) scope .null (s :: ss)

theorem runAll_succ (f : Flattens depth) (scope : Scope) (last : Object) : ∀ ss : List Statement,
    Corresponds .flattening (Object.recoded .flattening) (depth + 1) (Statement.runAll · scope last ss)
      (Statement.runAll · scope (last.recoded .flattening) (Statement.flattenedAll ss))
  | [] => Corresponds.of_succ (corresponds_pure last)
  | s :: ss => cons (f.run_succ scope _ s) fun object => f.runAll_succ scope object ss

end

end Flattens

/-- Within every bound all that is evaluated corresponds to what it is flattened to. -/
theorem flattens (depth : Nat) : Flattens depth := by
  induction depth with
  | zero => constructor <;> intros <;> exact corresponds_exhausted rfl rfl
  | succ depth f =>
    exact {
      eval := f.eval_succ
      evalAll := f.evalAll_succ
      evalEntries := f.evalEntries_succ
      runAll := f.runAll_succ
      call := f.call_succ }

end TinyScript
