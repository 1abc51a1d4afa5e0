import TinyScript.Proofs.Evaluation.Production
import TinyScript.Proofs.Evaluation.Writes
import TinyScript.Proofs.Session.Ends

/-! # What evaluation keeps to

Much of what can be said of a store and of the objects of a program is said with respect to something that grows while
the program runs: the identities given out, the scopes opened, what each identity stands for. Call that a **world**.
A **regime** says what stores, scopes and objects are like in each world (`Regime`). It holds of nothing that it does
not go on holding of in later worlds, objects that are in order hold such objects, and each single step that evaluation
takes leads from a store that is in order to one, in a later world. **Then evaluation as a whole does**, however it
completes, and gives nothing that is not in order (`Regime.rules`).
-/

namespace TinyScript

variable [ByteHash]

/-- What stores, scopes and objects are like in each world. -/
structure Regime (W : Type) where
  /-- The worlds that a world may become. -/
  later : W → W → Prop
  store : W → Store → Prop
  scope : W → Scope → Prop
  object : W → Object → Prop
  /-- The values that a new object may have. -/
  value : W → Value → Prop
  /-- The entries that a hash may have. -/
  entries : W → List (Key × Object × Object) → Prop
  -- What is in order stays in order.
  refl : ∀ world, later world world
  trans : ∀ {world middle last}, later world middle → later middle last → later world last
  scope_mono : ∀ {world next inner}, later world next → scope world inner → scope next inner
  object_mono : ∀ {world next there}, later world next → object world there → object next there
  entries_mono : ∀ {world next held}, later world next → entries world held → entries next held
  -- What there is from the beginning, and what can be got at.
  ofBool : ∀ world truth, object world (.ofBool truth)
  null : ∀ world, object world .null
  element : ∀ {world array elements member}, object world array → array.value = .array elements →
    member ∈ elements → object world member
  entry : ∀ {world hash held pair}, object world hash → hash.value = .hash held → pair ∈ held →
    object world pair.2.1 ∧ object world pair.2.2
  closure : ∀ {world function parameters body inner}, object world function →
    function.value = .function parameters body inner → scope world inner
  bound : ∀ {world before id binding}, store world before → binding ∈ before.locals id → object world binding.2
  -- What new objects are made of.
  number : ∀ world single, value world (.number single)
  string : ∀ world text, value world (.string text)
  builtin : ∀ world known, value world (.builtin known)
  function : ∀ {world inner}, scope world inner → ∀ parameters body, value world (.function parameters body inner)
  array : ∀ {world elements}, (∀ member ∈ elements, object world member) → value world (.array elements)
  hash : ∀ {world held}, entries world held → value world (.hash held)
  nothing : ∀ world, entries world []
  insert : ∀ {world held key name there}, entries world held → name.value.key? = some key → object world name →
    object world there → entries world (Assoc.insert key (name, there) held)
  -- The steps.
  allocated : ∀ {world before made}, store world before → value world made →
    ∃ next, later world next ∧ store next (before.allocate made).2 ∧ object next (before.allocate made).1
  assigned : ∀ {world before there}, store world before → object world there → ∀ inner name,
    store world (before.set inner name there)
  enclosed : ∀ {world before outer}, store world before → scope world outer →
    ∃ next, later world next ∧ store next (before.enclose outer).2 ∧ scope next (before.enclose outer).1
  -- What a host does besides: it begins, opens scopes around which there is none, leaves scopes, and gives identities
  -- to objects that stand for failures, to which nothing leads.
  begins : ∃ world, store world .empty
  rooted : ∀ {world before}, store world before →
    ∃ next, later world next ∧ store next before.openRoot.2 ∧ scope next before.openRoot.1
  outer : ∀ {world inner around}, scope world inner → inner.outer? = some around → scope world around
  skipped : ∀ {world before}, store world before →
    ∃ next, later world next ∧ store next ⟨before.bindings, before.nextId + 1⟩

namespace Regime

variable {W : Type} {α β : Type} {world next : W}

/-- A result of an operation that is in order. -/
def produced (r : Regime W) (world : W) : Produced → Prop
  | .existing object => r.object world object
  | .fresh value => r.value world value

/-- A completion with objects that are in order. -/
def completion (r : Regime W) (world : W) (good : W → α → Prop) : Completion α → Prop
  | .normal value => good world value
  | .returned object => r.object world object
  | .failed _ => True

/-- From a store that is in order the evaluation leads to one in a later world, and to a result that is in order. -/
def Keeps (r : Regime W) (world : W) (good : W → α → Prop) (evaluation : Evaluation α) : Prop :=
  ∀ store completion after, r.store world store → evaluation store = some (completion, after) →
    ∃ next, r.later world next ∧ r.store next after ∧ r.completion next good completion

variable {r : Regime W} {good : W → α → Prop} {good' : W → β → Prop}

/-! ## Operations -/

/-- Numbers, truth values and strings are in order in every world. -/
theorem produced_of_plain {produced : Produced} (h : produced.Plain) : r.produced world produced := by
  cases h with
  | truth value => exact r.ofBool world value
  | number value => exact r.number world value
  | string text => exact r.string world text

/-- What an object in order holds is in order. -/
theorem object_of_holds {collection object : Object} (hc : r.object world collection)
    (h : collection.Holds object) : r.object world object := by
  cases h with
  | element he hm => exact r.element hc he hm
  | entry he hm => exact (r.entry hc he hm).2

/-- What is found in an object in order is in order. -/
theorem object_of_index {collection position object : Object} (hc : r.object world collection)
    (h : collection.index position = .ok object) : r.object world object := by
  obtain rfl | hh := Object.holds_of_index h
  · exact r.null world
  · exact object_of_holds hc hh

/-- What is drawn from arguments in order is in order. -/
theorem produced_of_drawn {arguments : List Object} {produced : Produced} (h : produced.Drawn arguments)
    (ha : ∀ argument ∈ arguments, r.object world argument) : r.produced world produced := by
  cases h with
  | number value => exact r.number world value
  | null => exact r.null world
  | held hm h => exact object_of_holds (ha _ hm) h
  | array h =>
    refine r.array fun object hm => ?_
    obtain hm | ⟨argument, hm, hh⟩ := h object hm
    · exact ha object hm
    · exact object_of_holds (ha argument hm) hh

theorem store_setAll {store : Store} {bindings : List (String × Object)} (hs : r.store world store)
    (hb : ∀ binding ∈ bindings, r.object world binding.2) (scope : Scope) :
    r.store world (store.setAll scope bindings) := by
  induction bindings generalizing store with
  | nil => exact hs
  | cons binding bindings ih =>
    exact ih (r.assigned hs (hb binding List.mem_cons_self) scope binding.1)
      fun other hm => hb other (List.mem_cons_of_mem binding hm)

/-! ## Steps -/

open Evaluation

theorem keeps_pure {value : α} (h : good world value) : r.Keeps world good (pure value) := by
  rintro store _ _ hs ⟨⟩
  exact ⟨world, r.refl world, hs, h⟩

theorem keeps_exhausted : r.Keeps world good exhausted :=
  fun _ _ _ _ h => nomatch h

theorem keeps_fail (fault : Fault) (line : Nat) : r.Keeps world good (fail fault line) := by
  rintro store _ _ hs ⟨⟩
  exact ⟨world, r.refl world, hs, trivial⟩

theorem keeps_leave {object : Object} (h : r.object world object) : r.Keeps world good (leave object) := by
  rintro store _ _ hs ⟨⟩
  exact ⟨world, r.refl world, hs, h⟩

/-- A new object is in order if its value is. -/
theorem keeps_allocate {value : Value} (h : r.value world value) : r.Keeps world r.object (allocate value) := by
  rintro store _ _ hs ⟨⟩
  exact r.allocated hs h

/-- What is found in a store in order is in order. -/
theorem keeps_lookup (scope : Scope) (name : String) :
    r.Keeps world (fun world found => ∀ object ∈ found, r.object world object) (lookup scope name) := by
  rintro store _ _ hs ⟨⟩
  refine ⟨world, r.refl world, hs, fun object hm => ?_⟩
  obtain ⟨id, hb⟩ := Store.exists_mem_of_get? hm
  exact r.bound hs hb

/-- Binding an object in order keeps the store in order. -/
theorem keeps_assign (scope : Scope) (name : String) {object : Object} (h : r.object world object) :
    r.Keeps world (fun _ _ => True) (assign scope name object) := by
  rintro store _ _ hs ⟨⟩
  exact ⟨world, r.refl world, r.assigned hs h scope name, trivial⟩

/-- Opening a scope leads to a later world, in which the new scope is in order. -/
theorem keeps_enclose {outer : Scope} {bindings : List (String × Object)} (ho : r.scope world outer)
    (hb : ∀ binding ∈ bindings, r.object world binding.2) :
    r.Keeps world r.scope (enclose outer bindings) := by
  rintro store _ _ hs ⟨⟩
  obtain ⟨next, hl, hn, hi⟩ := r.enclosed hs ho
  exact ⟨next, hl, store_setAll hn (fun binding hm => r.object_mono hl (hb binding hm)) _, hi⟩

/-- A sequence keeps to a regime if its second part does in all later worlds. -/
theorem Keeps.bind {first : Evaluation α} {further : α → Evaluation β} (hf : r.Keeps world good first)
    (hn : ∀ next value, r.later world next → good next value → r.Keeps next good' (further value)) :
    r.Keeps world good' (first >>= further) := by
  intro store completion after hs h
  rcases bind_eq_some h with ⟨value, middle, h1, h2⟩ | ⟨object, h1, rfl⟩ | ⟨failure, h1, rfl⟩
  · obtain ⟨next, hl, hm, hv⟩ := hf store _ middle hs h1
    obtain ⟨last, hl', ha, hc⟩ := hn next value hl hv middle completion after hm h2
    exact ⟨last, r.trans hl hl', ha, hc⟩
  · exact hf store _ after hs h1
  · exact hf store _ after hs h1

/-- A fault changes nothing. -/
theorem keeps_ofExcept (line : Nat) {result : Except Fault α} (h : ∀ value, result = .ok value → good world value) :
    r.Keeps world good (ofExcept line result) := by
  cases result with
  | ok value => exact keeps_pure (h value rfl)
  | error fault => exact keeps_fail fault line

/-- What an operation gives without a fault is made in order. -/
theorem keeps_produce (line : Nat) {result : Except Fault Produced}
    (h : ∀ produced, result = .ok produced → r.produced world produced) :
    r.Keeps world r.object (produce line result) := by
  cases result with
  | ok produced =>
    have hp := h produced rfl
    cases produced with
    | existing object => exact keeps_pure hp
    | fresh value => exact keeps_allocate hp
  | error fault => exact keeps_fail fault line

/-- A `return` gives an object in order, so it may be caught. -/
theorem Keeps.catchReturn {evaluation : Evaluation Object} (h : r.Keeps world r.object evaluation) :
    r.Keeps world r.object evaluation.catchReturn := by
  intro store completion after hs he
  rcases catchReturn_eq_some he with ⟨object, hr, rfl⟩ | hr
  · obtain ⟨next, hl, ha, hc⟩ := h store _ after hs hr
    exact ⟨next, hl, ha, hc⟩
  · exact h store completion after hs hr

/-- A name stands for what is bound, or for a new builtin function. -/
theorem keeps_resolve (scope : Scope) (name : Ident) : r.Keeps world r.object (name.resolve scope) := by
  refine (keeps_lookup scope name.name).bind fun next found _ hf => ?_
  cases found with
  | some object => exact keeps_pure (hf object rfl)
  | none =>
    dsimp only
    cases Builtin.ofName? name.name with
    | some builtin => exact keeps_allocate (r.builtin next builtin)
    | none => exact keeps_fail _ _

/-! ## Evaluation -/

/-- Evaluation keeps to a regime, within a bound on its depth. -/
structure Rules (r : Regime W) (depth : Nat) : Prop where
  eval : ∀ {world scope} (_ : r.scope world scope) (e), r.Keeps world r.object (Expr.eval depth scope e)
  evalAll : ∀ {world scope} (_ : r.scope world scope) (es),
    r.Keeps world (fun world objects => ∀ object ∈ objects, r.object world object) (Expr.evalAll depth scope es)
  evalEntries : ∀ {world scope} (_ : r.scope world scope) {held} (_ : r.entries world held) (entries),
    r.Keeps world r.entries (Expr.evalEntries depth scope held entries)
  run : ∀ {world scope} (_ : r.scope world scope) (s), r.Keeps world r.object (Statement.run depth scope s)
  runAll : ∀ {world scope} (_ : r.scope world scope) {last} (_ : r.object world last) (ss),
    r.Keeps world r.object (Statement.runAll depth scope last ss)
  call : ∀ {world callee arguments}
    (_ : ∀ {parameters body inner}, callee.value = .function parameters body inner → r.scope world inner)
    (_ : ∀ argument ∈ arguments, r.object world argument) (line),
    r.Keeps world r.object (Object.call depth callee arguments line)

namespace Rules

variable {depth : Nat} {scope : Scope}

theorem block (l : r.Rules depth) (hs : r.scope world scope) (body : Block) :
    r.Keeps world r.object (Statement.runAll depth scope .null body.statements) :=
  l.runAll hs (r.null world) body.statements

/-- Each part of an expression is evaluated in the world that the parts before it led to. -/
theorem eval_succ (l : r.Rules depth) (hs : r.scope world scope) (e : Expr) :
    r.Keeps world r.object (Expr.eval (depth + 1) scope e) := by
  cases e with
  | ident name => exact keeps_resolve scope name
  | number value => exact keeps_allocate (r.number world value)
  | boolean value => exact keeps_pure (r.ofBool world value)
  | string text => exact keeps_allocate (r.string world text)
  | function parameters body => exact keeps_allocate (r.function hs parameters body)
  | array elements => exact (l.evalAll hs elements).bind fun _ _ _ ho => keeps_allocate (r.array ho)
  | hash entries => exact (l.evalEntries hs (r.nothing world) entries).bind fun _ _ _ ho => keeps_allocate (r.hash ho)
  | unary op operand line =>
    exact (l.eval hs operand).bind fun _ _ _ _ => keeps_produce line fun _ he =>
      produced_of_plain (UnaryOp.plain_apply he)
  | binary op left right line =>
    exact (l.eval hs left).bind fun _ _ hm _ => (l.eval (r.scope_mono hm hs) right).bind fun _ _ _ _ =>
      keeps_produce line fun _ he => produced_of_plain (BinaryOp.plain_apply he)
  | conditional condition consequence alternative =>
    refine (l.eval hs condition).bind fun next object hm _ => ?_
    split
    · exact l.block (r.scope_mono hm hs) consequence
    · cases alternative with
      | none => exact keeps_pure (r.null next)
      | some body => exact l.block (r.scope_mono hm hs) body
  | call callee arguments line =>
    refine (l.eval hs callee).bind fun next function hm hf => ?_
    refine (l.evalAll (r.scope_mono hm hs) arguments).bind fun last objects hm' ho => ?_
    exact l.call (r.closure (r.object_mono hm' hf)) ho line
  | index collection position line =>
    refine (l.eval hs collection).bind fun next first hm hf => ?_
    refine (l.eval (r.scope_mono hm hs) position).bind fun last second hm' _ => ?_
    exact keeps_ofExcept line fun _ => object_of_index (r.object_mono hm' hf)

theorem evalAll_succ (l : r.Rules depth) (hs : r.scope world scope) (es : List Expr) :
    r.Keeps world (fun world objects => ∀ object ∈ objects, r.object world object)
      (Expr.evalAll (depth + 1) scope es) := by
  cases es with
  | nil => exact keeps_pure (List.forall_mem_nil _)
  | cons e es =>
    refine (l.eval hs e).bind fun next object hm ho => ?_
    refine (l.evalAll (r.scope_mono hm hs) es).bind fun last objects hm' hos => ?_
    exact keeps_pure (List.forall_mem_cons.mpr ⟨r.object_mono hm' ho, hos⟩)

/-- The entries so far stay in order in every later world. -/
theorem evalEntries_succ (l : r.Rules depth) (hs : r.scope world scope) {held : List (Key × Object × Object)}
    (hh : r.entries world held) (entries : List (Expr × Expr)) :
    r.Keeps world r.entries (Expr.evalEntries (depth + 1) scope held entries) := by
  cases entries with
  | nil => exact keeps_pure hh
  | cons entry entries =>
    obtain ⟨keyExpr, valueExpr⟩ := entry
    refine (l.eval hs keyExpr).bind fun next name hm hn => ?_
    have hkey : r.Keeps next (fun _ key => name.value.key? = some key) (ofExcept keyExpr.line name.keyOrFault) :=
      keeps_ofExcept _ fun key => Object.keyOrFault_eq_ok
    refine hkey.bind fun middle key hm' hk => ?_
    have hto := r.trans hm hm'
    refine (l.eval (r.scope_mono hto hs) valueExpr).bind fun last value hm'' hv => ?_
    have hall := r.trans hto hm''
    exact l.evalEntries (r.scope_mono hall hs)
      (r.insert (r.entries_mono hall hh) hk (r.object_mono (r.trans hm' hm'') hn) hv) entries

theorem run_succ (l : r.Rules depth) (hs : r.scope world scope) (s : Statement) :
    r.Keeps world r.object (Statement.run (depth + 1) scope s) := by
  cases s with
  | bind name value =>
    refine (l.eval hs value).bind fun next object hm ho => ?_
    exact (keeps_assign scope name.name ho).bind fun last _ _ _ => keeps_pure (r.null last)
  | leave value =>
    cases value with
    | none => exact keeps_leave (r.null world)
    | some value => exact (l.eval hs value).bind fun _ _ _ ho => keeps_leave ho
  | expression value => exact l.eval hs value
  | block body => exact l.block hs body

theorem runAll_succ (l : r.Rules depth) (hs : r.scope world scope) {last : Object} (hl : r.object world last)
    (ss : List Statement) : r.Keeps world r.object (Statement.runAll (depth + 1) scope last ss) := by
  cases ss with
  | nil => exact keeps_pure hl
  | cons s ss => exact (l.run hs s).bind fun _ _ hm ho => l.runAll (r.scope_mono hm hs) ho ss

/-- The body of a function is run in a new scope within the one that it was made in. -/
theorem call_succ (l : r.Rules depth) {callee : Object} {arguments : List Object}
    (hc : ∀ {parameters body inner}, callee.value = .function parameters body inner → r.scope world inner)
    (ha : ∀ argument ∈ arguments, r.object world argument) (line : Nat) :
    r.Keeps world r.object (Object.call (depth + 1) callee arguments line) := by
  unfold Object.call
  split
  · next parameters body scope he =>
    split
    · have hb : ∀ binding ∈ (parameters.map Ident.name).zip arguments, r.object world binding.2 :=
        fun binding hm => ha _ (List.of_mem_zip hm).2
      exact (keeps_enclose (hc he) hb).bind fun next inner _ hi => (l.block hi body).catchReturn
    · exact keeps_fail _ _
  · exact keeps_produce line fun _ he => produced_of_drawn (Builtin.drawn_apply he) ha
  · exact keeps_fail _ _

end Rules

/-- **Evaluation keeps to every regime**, within every bound on its depth. -/
theorem rules (r : Regime W) (depth : Nat) : r.Rules depth := by
  induction depth with
  | zero => constructor <;> intros <;> exact keeps_exhausted
  | succ depth l =>
    exact {
      eval := l.eval_succ
      evalAll := l.evalAll_succ
      evalEntries := l.evalEntries_succ
      run := l.run_succ
      runAll := l.runAll_succ
      call := l.call_succ }

/-- Running a program leads from a store that is in order to one, and to an object that is in order if it does not
fail. -/
theorem exists_of_run {depth : Nat} {scope : Scope} {program : Program} {store after : Store}
    {ended : Except Failure Object} (hs : r.store world store) (hc : r.scope world scope)
    (h : Program.run depth scope program store = some (ended, after)) :
    ∃ next, r.later world next ∧ r.store next after ∧ ∀ object, ended = .ok object → r.object next object := by
  obtain ⟨completion, hr, rfl⟩ := Program.exists_completion h
  obtain ⟨next, hl, ha, ho⟩ := (r.rules depth).runAll hc (r.null world) program store completion after hs hr
  refine ⟨next, hl, ha, fun object he => ?_⟩
  rcases Completion.eq_of_ended_ok he with rfl | rfl
  · exact ho
  · exact ho

end Regime

end TinyScript
