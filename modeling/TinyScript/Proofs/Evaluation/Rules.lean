import TinyScript.Proofs.Evaluation.Unwinding

/-! # Rules of completion

What a construct completes with, from what its parts complete with, without a bound on depth. There is a rule for each
construct whose last part decides how it ends: **once the other parts have completed normally, the construct completes
as its last part does** (`Expr.completes_call_iff`, `Expr.completes_conditional_iff`, `Statement.completes_runAll_iff`,
`Object.completes_call_iff`). So a program is followed from its start to the call that is made last, one part after
another, and nothing is said of how deep calls are nested.

The rules hold in both directions because a larger bound keeps every completion (`Evaluation.Persists`), so parts that
complete within different bounds complete within one.
-/

namespace TinyScript

namespace Evaluation

variable {α β : Type} {store middle after : Store} {completion : Completion β}

/-- A larger bound keeps every completion. -/
def Persists (evaluation : Nat → Evaluation α) : Prop :=
  ∀ ⦃depth larger⦄, depth ≤ larger → (evaluation depth).Within (evaluation larger)

theorem persists_const (evaluation : Evaluation α) : Persists fun _ => evaluation :=
  fun _ _ _ => within_refl evaluation

/-- What takes no bound completes in one step. -/
theorem completes_const_iff {evaluation : Evaluation β} :
    Completes (fun _ => evaluation) store completion after ↔ evaluation store = some (completion, after) :=
  ⟨fun ⟨_, h⟩ => h, fun h => ⟨0, h⟩⟩

section Bind

variable {first : Nat → Evaluation α} {next : Nat → α → Evaluation β} {value : α}

/-- A sequence persists if its parts do. -/
theorem Persists.bind (hf : Persists first) (hn : ∀ value, Persists (next · value)) :
    Persists fun depth => first depth >>= next depth :=
  fun _ _ hle => (hf hle).bind fun value => hn value hle

/-- Evaluations that complete do so in one way. -/
theorem Completes.unique {completion other : Completion α} (hp : Persists first)
    (h : Completes first store completion middle) (h' : Completes first store other after) :
    completion = other ∧ middle = after := by
  obtain ⟨depth, hd⟩ := h
  obtain ⟨larger, hl⟩ := h'
  have hd' := hp (Nat.le_max_left depth larger) store _ hd
  have hl' := hp (Nat.le_max_right depth larger) store _ hl
  rw [hd'] at hl'
  cases hl'
  exact ⟨rfl, rfl⟩

/-- What completes within a bound if and only if it does within the next one. -/
theorem completes_succ_iff {completion : Completion α} (h : first 0 = exhausted) :
    Completes first store completion after ↔ Completes (fun depth => first (depth + 1)) store completion after := by
  refine ⟨?_, Completes.of_succ⟩
  rintro ⟨depth, hd⟩
  cases depth with
  | zero =>
    rw [h] at hd
    cases hd
  | succ depth => exact ⟨depth, hd⟩

/-- A sequence goes on from where its first part completes normally, or ends where that ends abruptly. -/
theorem completes_bind_iff (hf : Persists first) (hn : ∀ value, Persists (next · value)) :
    Completes (fun depth => first depth >>= next depth) store completion after ↔
      (∃ value middle, Completes first store (.normal value) middle ∧
          Completes (next · value) middle completion after) ∨
        ∃ abrupt : Abrupt, Completes first store abrupt.completion after ∧ completion = abrupt.completion := by
  constructor
  · rintro ⟨depth, h⟩
    rcases bind_eq_some_or_abrupt h with ⟨value, middle, h1, h2⟩ | ⟨abrupt, h1, he⟩
    · exact .inl ⟨value, middle, ⟨depth, h1⟩, depth, h2⟩
    · exact .inr ⟨abrupt, ⟨depth, h1⟩, he⟩
  · rintro (⟨value, middle, h1, h2⟩ | ⟨abrupt, h1, rfl⟩)
    · exact h1.bind h2 (hf ·) (hn value ·)
    · exact h1.bind_abrupt

/-- Behind a part that completes normally, a sequence completes as the rest of it does. -/
theorem completes_bind_iff_of_normal (hf : Persists first) (hn : ∀ value, Persists (next · value))
    (h : Completes first store (.normal value) middle) :
    Completes (fun depth => first depth >>= next depth) store completion after ↔
      Completes (next · value) middle completion after := by
  rw [completes_bind_iff hf hn]
  constructor
  · rintro (⟨other, between, h1, h2⟩ | ⟨abrupt, h1, -⟩)
    · obtain ⟨hv, rfl⟩ := h.unique hf h1
      cases hv
      exact h2
    · obtain ⟨he, -⟩ := h.unique hf h1
      cases abrupt <;> cases he
  · intro h2
    exact .inl ⟨value, middle, h, h2⟩

/-- Sequences of parts that end alike end alike. -/
theorem completes_bind_congr {first' : Nat → Evaluation α} {next' : Nat → α → Evaluation β} {store' : Store}
    (hf : Persists first) (hn : ∀ value, Persists (next · value)) (hf' : Persists first')
    (hn' : ∀ value, Persists (next' · value))
    (h : ∀ completion after, Completes first store completion after ↔ Completes first' store' completion after)
    (h' : ∀ value middle,
      Completes (next · value) middle completion after ↔ Completes (next' · value) middle completion after) :
    Completes (fun depth => first depth >>= next depth) store completion after ↔
      Completes (fun depth => first' depth >>= next' depth) store' completion after := by
  rw [completes_bind_iff hf hn, completes_bind_iff hf' hn']
  simp only [h, h']

/-- A sequence whose second part only gives what the first one gave ends as that does. -/
theorem completes_bind_iff_of_gives {first : Nat → Evaluation β} {next : Nat → β → Evaluation β} (hf : Persists first)
    (hn : ∀ value, Persists (next · value))
    (h : ∀ value store completion after,
      Completes (next · value) store completion after ↔ completion = .normal value ∧ after = store) :
    Completes (fun depth => first depth >>= next depth) store completion after ↔
      Completes first store completion after := by
  rw [completes_bind_iff hf hn]
  constructor
  · rintro (⟨value, middle, h1, h2⟩ | ⟨abrupt, h1, rfl⟩)
    · obtain ⟨rfl, rfl⟩ := (h ..).mp h2
      exact h1
    · exact h1
  · intro h1
    cases completion with
    | normal value => exact .inl ⟨value, after, h1, (h ..).mpr ⟨rfl, rfl⟩⟩
    | returned object => exact .inr ⟨.returned object, h1, rfl⟩
    | failed failure => exact .inr ⟨.failed failure, h1, rfl⟩

end Bind

end Evaluation

open Evaluation

variable {scope : Scope} {store middle after : Store} {completion : Completion Object} {object function : Object}
  {line : Nat}

/-! ## What calls are made of -/

namespace Store

/-- A store with one more scope, with bindings of its own, and with some more objects made. -/
def opened (store : Store) (locals : Bindings) (made : Nat) : Store :=
  ⟨store.bindings.push locals, store.nextId + made⟩

variable {outer : Scope} {locals : Bindings} {made : Nat} {name : String}

/-- Opening a scope touches none of those that there are. -/
theorem untouched_opened : store.Untouched (store.opened locals made) := by
  refine ⟨by simp [opened], fun id hid => ?_⟩
  simp [opened, Store.locals, Array.getElem?_push, Nat.ne_of_lt hid]

theorem locals_opened : (store.opened locals made).locals store.bindings.size = locals := by
  simp [opened, Store.locals]

/-- A name that the new scope binds. -/
theorem get?_opened (h : Assoc.find? name locals = some object) :
    (store.opened locals made).get? (.enclosed store.bindings.size outer) name = some object := by
  simp [get?, locals_opened, h]

/-- Any other name is looked up in the scopes around. -/
theorem get?_opened_of_none (h : Assoc.find? name locals = none) :
    (store.opened locals made).get? (.enclosed store.bindings.size outer) name =
      (store.opened locals made).get? outer name := by
  simp [get?, locals_opened, h]

/-- What is bound in the new scope is among its own bindings. -/
theorem set_opened :
    (store.opened locals made).set (.enclosed store.bindings.size outer) name object =
      store.opened (Assoc.insert name object locals) made := by
  simp only [opened, set, Scope.id, Store.mk.injEq, and_true]
  ext <;> grind

/-- Opening a scope with bindings. -/
theorem setAll_opened (bindings : List (String × Object)) :
    (store.opened locals made).setAll (.enclosed store.bindings.size outer) bindings =
      store.opened (bindings.foldl (fun held binding => Assoc.insert binding.1 binding.2 held) locals) made := by
  induction bindings generalizing locals with
  | nil => rfl
  | cons binding rest ih =>
    obtain ⟨name, object⟩ := binding
    rw [setAll, set_opened, ih]
    rfl

end Store

/-- No `return` passes the boundary that catches it. -/
theorem Evaluation.catchReturn_ne_returned {evaluation : Evaluation Object} :
    catchReturn evaluation store ≠ some (.returned object, after) := by
  intro h
  obtain ⟨_, -, he⟩ | hr := catchReturn_eq_some h
  · cases he
  · unfold catchReturn at h
    rw [hr] at h
    cases h

/-- No operation completes with a `return`. -/
theorem Evaluation.produce_ne_returned {result : Except Fault Produced} :
    produce line result store ≠ some (.returned object, after) := by
  intro h
  cases result with
  | error fault => cases h
  | ok produced => cases produced <;> cases h

/-- Nothing is caught of what never completes with a `return`. -/
theorem Evaluation.completes_catchReturn_iff {evaluation : Nat → Evaluation Object}
    (h : ∀ object after, ¬ Completes evaluation store (.returned object) after) :
    Completes (fun depth => catchReturn (evaluation depth)) store completion after ↔
      Completes evaluation store completion after := by
  constructor
  · rintro ⟨depth, hd⟩
    obtain ⟨object, hr, -⟩ | hr := catchReturn_eq_some hd
    · exact absurd ⟨depth, hr⟩ (h object after)
    · exact ⟨depth, hr⟩
  · rintro ⟨depth, hd⟩
    refine ⟨depth, ?_⟩
    show catchReturn (evaluation depth) store = _
    unfold catchReturn
    rw [hd]
    cases completion with
    | returned object => exact absurd ⟨depth, hd⟩ (h object after)
    | normal | failed => rfl

/-! ## Programs -/

variable [ByteHash]

theorem Expr.persists_eval (scope : Scope) (e : Expr) : Persists (Expr.eval · scope e) :=
  fun _ _ hle => Expr.eval_within hle scope e

theorem Expr.persists_evalAll (scope : Scope) (es : List Expr) : Persists (Expr.evalAll · scope es) :=
  fun _ _ hle => Expr.evalAll_within hle scope es

theorem Statement.persists_run (scope : Scope) (s : Statement) : Persists (Statement.run · scope s) :=
  fun _ _ hle => Statement.run_within hle scope s

theorem Statement.persists_runAll (scope : Scope) (last : Object) (ss : List Statement) :
    Persists (Statement.runAll · scope last ss) :=
  fun _ _ hle => Statement.runAll_within hle scope last ss

theorem Object.persists_call (callee : Object) (arguments : List Object) (line : Nat) :
    Persists (Object.call · callee arguments line) :=
  fun _ _ hle => Object.call_within hle callee arguments line

/-- No statements give what was given before them. -/
theorem Statement.completes_runAll_nil_iff {last : Object} :
    Completes (Statement.runAll · scope last []) store completion after ↔
      completion = .normal last ∧ after = store := by
  have hc : Completes (Statement.runAll · scope last []) store (.normal last) store := ⟨1, rfl⟩
  constructor
  · intro h
    exact h.unique (Statement.persists_runAll scope last []) hc
  · rintro ⟨rfl, rfl⟩
    exact hc

/-! ## Expressions -/

/-- A name that is bound stands for what it is bound to. -/
theorem Expr.completes_ident {name : Ident} (h : store.get? scope name.name = some object) :
    Completes (Expr.eval · scope (.ident name)) store (.normal object) store := by
  have hl : lookup scope name.name store = some (.normal (some object), store) := by rw [lookup, h]
  exact ⟨1, bind_eq_of_normal hl⟩

/-- A builtin function is made anew where its name is mentioned, unless the name is bound. -/
theorem Expr.completes_builtin {builtin : Builtin} (h : store.get? scope builtin.name = none) :
    Completes (Expr.eval · scope (.ident ⟨builtin.name, line⟩)) store
      (.normal ⟨store.nextId, .builtin builtin⟩) ⟨store.bindings, store.nextId + 1⟩ := by
  have hl : lookup scope builtin.name store = some (.normal none, store) := by rw [lookup, h]
  refine ⟨1, (bind_eq_of_normal hl).trans ?_⟩
  simp only [Builtin.ofName?_name]
  rfl

theorem Expr.completes_number {value : Single} :
    Completes (Expr.eval · scope (.number value line)) store (.normal ⟨store.nextId, .number value⟩)
      ⟨store.bindings, store.nextId + 1⟩ :=
  ⟨1, rfl⟩

/-- A function literal gives a new function of the scope that it stands in. -/
theorem Expr.completes_function {parameters : List Ident} {body : Block} :
    Completes (Expr.eval · scope (.function parameters body line)) store
      (.normal ⟨store.nextId, .function parameters body scope⟩) ⟨store.bindings, store.nextId + 1⟩ :=
  ⟨1, rfl⟩

/-- Behind its operands an operator ends as its operation does. -/
theorem Expr.completes_binary_iff {op : BinaryOp} {left right : Expr} {a b : Object} {between : Store}
    (ha : Completes (Expr.eval · scope left) store (.normal a) between)
    (hb : Completes (Expr.eval · scope right) between (.normal b) middle) :
    Completes (Expr.eval · scope (.binary op left right line)) store completion after ↔
      produce line (op.apply a b) middle = some (completion, after) := by
  refine (completes_succ_iff rfl).trans ?_
  refine (completes_bind_iff_of_normal (Expr.persists_eval scope left) (fun value => ?_) ha).trans ?_
  · exact (Expr.persists_eval scope right).bind fun _ => persists_const _
  · have hp : ∀ second, Persists fun _ => produce line (op.apply a second) := fun _ => persists_const _
    exact (completes_bind_iff_of_normal (Expr.persists_eval scope right) hp hb).trans completes_const_iff

/-- The body that a condition chooses. -/
def Block.chosen (test : Object) (consequence : Block) (alternative : Option Block) : List Statement :=
  if test.value.truthy then consequence.statements else (alternative.map Block.statements).getD []

/-- What a conditional does behind its condition. -/
def Block.branch (depth : Nat) (scope : Scope) (consequence : Block) (alternative : Option Block) (test : Object) :
    Evaluation Object :=
  if test.value.truthy then Statement.runAll depth scope .null consequence.statements
  else
    match alternative with
    | some body => Statement.runAll depth scope .null body.statements
    | none => return .null

theorem Block.persists_branch (consequence : Block) (alternative : Option Block) (test : Object) :
    Persists (Block.branch · scope consequence alternative test) := by
  intro depth larger hle
  show (Block.branch depth scope consequence alternative test).Within
    (Block.branch larger scope consequence alternative test)
  unfold Block.branch
  split
  · exact Statement.runAll_within hle scope .null _
  · split
    · exact Statement.runAll_within hle scope .null _
    · exact within_refl _

/-- A branch does what the statements of the chosen block do. -/
theorem Block.completes_branch_iff {consequence : Block} {alternative : Option Block} {test : Object} :
    Completes (Block.branch · scope consequence alternative test) store completion after ↔
      Completes (Statement.runAll · scope .null (Block.chosen test consequence alternative)) store completion
        after := by
  unfold Block.branch Block.chosen
  split
  · exact .rfl
  · cases alternative with
    | some body => exact .rfl
    | none =>
      refine completes_const_iff.trans (Iff.trans ?_ Statement.completes_runAll_nil_iff.symm)
      constructor
      · rintro ⟨⟩
        exact ⟨rfl, rfl⟩
      · rintro ⟨rfl, rfl⟩
        rfl

/-- Behind its condition a conditional ends as the body that is chosen; no body is an empty one. -/
theorem Expr.completes_conditional_iff {condition : Expr} {consequence : Block} {alternative : Option Block}
    (hc : Completes (Expr.eval · scope condition) store (.normal object) middle) :
    Completes (Expr.eval · scope (.conditional condition consequence alternative line)) store completion after ↔
      Completes (Statement.runAll · scope .null (Block.chosen object consequence alternative)) middle completion
        after := by
  refine (completes_succ_iff rfl).trans (Iff.trans ?_ Block.completes_branch_iff)
  exact completes_bind_iff_of_normal (Expr.persists_eval scope condition)
    (Block.persists_branch consequence alternative) hc

theorem Expr.completes_evalAll_nil : Completes (Expr.evalAll · scope []) store (.normal []) store :=
  ⟨1, rfl⟩

/-- Arguments are evaluated from the first to the last. -/
theorem Expr.completes_evalAll_cons {e : Expr} {es : List Expr} {objects : List Object}
    (h : Completes (Expr.eval · scope e) store (.normal object) middle)
    (hs : Completes (Expr.evalAll · scope es) middle (.normal objects) after) :
    Completes (Expr.evalAll · scope (e :: es)) store (.normal (object :: objects)) after := by
  have hp : ∀ object, Persists fun depth => Expr.evalAll depth scope es >>= fun objects => pure (object :: objects) :=
    fun object => (Expr.persists_evalAll scope es).bind fun _ => persists_const _
  refine (completes_succ_iff rfl).mpr ((completes_bind_iff_of_normal (Expr.persists_eval scope e) hp h).mpr ?_)
  have hg : ∀ objects, Persists fun _ => (pure (object :: objects) : Evaluation (List Object)) :=
    fun _ => persists_const _
  exact (completes_bind_iff_of_normal (Expr.persists_evalAll scope es) hg hs).mpr ⟨0, rfl⟩

/-- Behind the function a call evaluates the arguments and calls it. -/
theorem Expr.completes_call_iff {callee : Expr} {arguments : List Expr}
    (hc : Completes (Expr.eval · scope callee) store (.normal function) middle) :
    Completes (Expr.eval · scope (.call callee arguments line)) store completion after ↔
      Completes (fun depth => Expr.evalAll depth scope arguments >>= fun objects =>
        Object.call depth function objects line) middle completion after := by
  refine (completes_succ_iff rfl).trans ?_
  exact completes_bind_iff_of_normal (Expr.persists_eval scope callee)
    (fun value => (Expr.persists_evalAll scope arguments).bind fun objects => Object.persists_call value objects line)
    hc

/-- Behind the function and the arguments a call ends as the function does that is called. -/
theorem Expr.completes_call_iff_of_normal {callee : Expr} {arguments : List Expr} {objects : List Object}
    {between : Store} (hc : Completes (Expr.eval · scope callee) store (.normal function) between)
    (ha : Completes (Expr.evalAll · scope arguments) between (.normal objects) middle) :
    Completes (Expr.eval · scope (.call callee arguments line)) store completion after ↔
      Completes (Object.call · function objects line) middle completion after :=
  (completes_call_iff hc).trans (completes_bind_iff_of_normal (Expr.persists_evalAll scope arguments)
    (fun objects => Object.persists_call function objects line) ha)

section Arguments

variable {α : Type} {next : Nat → List Object → Evaluation α} {completion : Completion α}

theorem Expr.evalAll_cons_bind {e : Expr} {es : List Expr} (depth : Nat) (next : List Object → Evaluation α) :
    Expr.evalAll (depth + 1) scope (e :: es) >>= next = Expr.eval depth scope e >>= fun object =>
      Expr.evalAll depth scope es >>= fun objects => next (object :: objects) := by
  have ha : Expr.evalAll (depth + 1) scope (e :: es) = Expr.eval depth scope e >>= fun object =>
      Expr.evalAll depth scope es >>= fun objects => pure (object :: objects) := rfl
  rw [ha, Evaluation.bind_assoc]
  congr
  funext object
  rw [Evaluation.bind_assoc]
  rfl

/-- Arguments are evaluated one after another. -/
theorem Expr.completes_evalAll_cons_iff {e : Expr} {es : List Expr} (hn : ∀ objects, Persists (next · objects)) :
    Completes (fun depth => Expr.evalAll depth scope (e :: es) >>= next depth) store completion after ↔
      Completes (fun depth => Expr.eval depth scope e >>= fun object =>
        Expr.evalAll depth scope es >>= fun objects => next depth (object :: objects)) store completion after := by
  constructor
  · rintro ⟨depth, h⟩
    cases depth with
    | zero => cases h
    | succ depth =>
      simp only [evalAll_cons_bind] at h
      have hraised := (Expr.eval_within (Nat.le_succ depth) scope e).bind fun object =>
        (Expr.evalAll_within (Nat.le_succ depth) scope es).bind fun objects =>
          within_refl (next (depth + 1) (object :: objects))
      exact ⟨depth + 1, hraised store _ h⟩
  · rintro ⟨depth, h⟩
    have hraised := (within_refl (Expr.eval depth scope e)).bind fun object =>
      (within_refl (Expr.evalAll depth scope es)).bind fun objects => hn (object :: objects) (Nat.le_succ depth)
    rw [← evalAll_cons_bind depth (next (depth + 1))] at hraised
    exact ⟨depth + 1, hraised store _ h⟩

/-- Behind an argument that is evaluated to its end, the others are. -/
theorem Expr.completes_evalAll_cons_iff_of_normal {e : Expr} {es : List Expr}
    (hn : ∀ objects, Persists (next · objects)) (h : Completes (Expr.eval · scope e) store (.normal object) middle) :
    Completes (fun depth => Expr.evalAll depth scope (e :: es) >>= next depth) store completion after ↔
      Completes (fun depth => Expr.evalAll depth scope es >>= fun objects => next depth (object :: objects)) middle
        completion after :=
  (completes_evalAll_cons_iff hn).trans (completes_bind_iff_of_normal (Expr.persists_eval scope e)
    (fun object => (Expr.persists_evalAll scope es).bind fun objects => hn (object :: objects)) h)

/-- The last argument decides how the arguments end. -/
theorem Expr.completes_evalAll_singleton_iff {e : Expr} (hn : ∀ objects, Persists (next · objects)) :
    Completes (fun depth => Expr.evalAll depth scope [e] >>= next depth) store completion after ↔
      Completes (fun depth => Expr.eval depth scope e >>= fun object => next depth [object]) store completion
        after := by
  have hp : ∀ object, Persists fun depth => Expr.evalAll depth scope [] >>= fun objects =>
      next depth (object :: objects) := fun object => (Expr.persists_evalAll scope []).bind fun objects => hn _
  rw [completes_evalAll_cons_iff hn]
  refine completes_bind_congr (Expr.persists_eval scope e) hp (Expr.persists_eval scope e) (fun object => hn [object])
    (fun _ _ => .rfl) fun object middle => ?_
  exact completes_bind_iff_of_normal (Expr.persists_evalAll scope []) (fun objects => hn (object :: objects))
    Expr.completes_evalAll_nil

end Arguments

/-! ## Statements -/

theorem Statement.completes_expression_iff {e : Expr} :
    Completes (Statement.run · scope (.expression e line)) store completion after ↔
      Completes (Expr.eval · scope e) store completion after :=
  completes_succ_iff rfl

/-- A `let` binds in the scope itself, and gives null. -/
theorem Statement.completes_bind {name : Ident} {e : Expr}
    (h : Completes (Expr.eval · scope e) store (.normal object) middle) :
    Completes (Statement.run · scope (.bind name e line)) store (.normal .null)
      (middle.set scope name.name object) := by
  obtain ⟨depth, hd⟩ := h
  refine ⟨depth + 1, ?_⟩
  show (Expr.eval depth scope e >>= _) store = _
  rw [bind_eq_of_normal hd]
  rfl

/-- Behind a statement that completes normally, the rest is run. -/
theorem Statement.completes_runAll_iff {s : Statement} {ss : List Statement} {last : Object}
    (h : Completes (Statement.run · scope s) store (.normal object) middle) :
    Completes (Statement.runAll · scope last (s :: ss)) store completion after ↔
      Completes (Statement.runAll · scope object ss) middle completion after := by
  refine (completes_succ_iff rfl).trans ?_
  exact completes_bind_iff_of_normal (Statement.persists_run scope s)
    (fun value => Statement.persists_runAll scope value ss) h

/-- One statement ends as it ends alone. -/
theorem Statement.completes_runAll_singleton_iff {s : Statement} {last : Object} :
    Completes (Statement.runAll · scope last [s]) store completion after ↔
      Completes (Statement.run · scope s) store completion after := by
  refine (completes_succ_iff rfl).trans ?_
  exact completes_bind_iff_of_gives (Statement.persists_run scope s)
    (fun value => Statement.persists_runAll scope value []) fun _ _ _ _ => Statement.completes_runAll_nil_iff

/-! ## Calls -/

/-- A call opens a scope with the arguments in it, and ends as the body does there, up to a `return`. -/
theorem Object.completes_call_iff {parameters : List Ident} {body : Block} {arguments : List Object}
    (hf : function.value = .function parameters body scope) (hl : arguments.length = parameters.length) :
    Completes (Object.call · function arguments line) store completion after ↔
      Completes (fun depth => catchReturn (Statement.runAll depth (.enclosed store.bindings.size scope) .null
          body.statements))
        (store.opened (((parameters.map Ident.name).zip arguments).foldl
          (fun held binding => Assoc.insert binding.1 binding.2 held) []) 0)
        completion after := by
  refine (completes_succ_iff rfl).trans (exists_congr fun depth => ?_)
  simp only [Object.call, hf, if_pos hl]
  rw [← Store.setAll_opened]
  rfl

/-- A builtin function needs no bound, and touches the store only to make an object. -/
theorem Object.completes_builtin_iff {builtin : Builtin} {arguments : List Object}
    (hf : function.value = .builtin builtin) :
    Completes (Object.call · function arguments line) store completion after ↔
      produce line (builtin.apply arguments) store = some (completion, after) := by
  refine (completes_succ_iff rfl).trans (Iff.trans (exists_congr fun depth => ?_) completes_const_iff)
  simp only [Object.call, hf]

/-- A call is never left by a `return`. -/
theorem Object.not_completes_call_returned {arguments : List Object} :
    ¬ Completes (Object.call · function arguments line) store (.returned object) after := by
  rw [completes_succ_iff rfl]
  rintro ⟨depth, h⟩
  unfold Object.call at h
  split at h
  · split at h
    · exact catchReturn_ne_returned h
    · cases h
  · exact produce_ne_returned h
  · cases h

end TinyScript
