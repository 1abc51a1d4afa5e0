import TinyScript.Proofs.Evaluation.Contexts
import TinyScript.Proofs.Session.Batch
import TinyScript.Text.Fx

/-! # Abrupt completions unwind

A `return` and a failure stop all that is around them, up to a boundary. **Where the part at the place of a context
completes abruptly, the whole completes in the same way and with the same store**, whatever stands behind the place
(`Context.unwinds`): nothing of that is evaluated, and no `let` around the place binds anything. The boundaries are
the call that the body was entered by and the end of the program. There a `return` gives its value, and a failure
passes on.

Each frame passes an abrupt completion on (`Frame.passes`), and so does a context, by induction on its frames.
-/

namespace TinyScript

/-- An abrupt way to complete. -/
inductive Abrupt where
  | returned (value : Object)
  | failed (failure : Failure)

namespace Abrupt

/-- The completion of an evaluation, whatever it was to give. -/
def completion {α : Type} : Abrupt → Completion α
  | .returned value => .returned value
  | .failed failure => .failed failure

/-- What a call makes of it: a `return` ends here. -/
def caught : Abrupt → Completion Object
  | .returned value => .normal value
  | .failed failure => .failed failure

end Abrupt

namespace Evaluation

variable {α β : Type} {store middle after : Store} {abrupt : Abrupt}

/-- A sequence goes on from a normal completion. -/
theorem bind_eq_of_normal {first : Evaluation α} {next : α → Evaluation β} {value : α}
    (h : first store = some (.normal value, middle)) : (first >>= next) store = next value middle := by
  show Evaluation.bind first next store = _
  unfold Evaluation.bind
  rw [h]

/-- A sequence passes an abrupt completion on. -/
theorem bind_eq_of_abrupt {first : Evaluation α} (next : α → Evaluation β)
    (h : first store = some (abrupt.completion, after)) :
    (first >>= next) store = some (abrupt.completion, after) := by
  show Evaluation.bind first next store = _
  unfold Evaluation.bind
  rw [h]
  cases abrupt <;> rfl

/-- A sequence goes on after a normal completion, and only then. -/
theorem bind_eq_some_or_abrupt {first : Evaluation α} {next : α → Evaluation β} {completion : Completion β}
    (h : (first >>= next) store = some (completion, after)) :
    (∃ value middle, first store = some (.normal value, middle) ∧ next value middle = some (completion, after)) ∨
      ∃ abrupt : Abrupt, first store = some (abrupt.completion, after) ∧ completion = abrupt.completion := by
  rcases bind_eq_some h with found | ⟨object, hf, rfl⟩ | ⟨failure, hf, rfl⟩
  · exact .inl found
  · exact .inr ⟨.returned object, hf, rfl⟩
  · exact .inr ⟨.failed failure, hf, rfl⟩

/-- Only what has completed normally goes on to complete normally. -/
theorem bind_eq_normal {first : Evaluation α} {next : α → Evaluation β} {result : β}
    (h : (first >>= next) store = some (.normal result, after)) :
    ∃ value middle, first store = some (.normal value, middle) ∧
      next value middle = some (.normal result, after) := by
  rcases bind_eq_some h with found | ⟨_, _, he⟩ | ⟨_, _, he⟩
  · exact found
  · cases he
  · cases he

theorem ofExcept_eq_normal {line : Nat} {result : Except Fault α} {value : α}
    (h : ofExcept line result store = some (.normal value, after)) : result = .ok value ∧ after = store := by
  cases result with
  | ok given =>
    cases h
    exact ⟨rfl, rfl⟩
  | error fault => cases h

namespace Completes

variable {first : Nat → Evaluation α} {next : Nat → α → Evaluation β} {value : α}

/-- What completes with one more call completes. -/
theorem of_succ {evaluation : Nat → Evaluation α} {completion : Completion α}
    (h : Completes (fun depth => evaluation (depth + 1)) store completion after) :
    Completes evaluation store completion after := by
  obtain ⟨depth, hd⟩ := h
  exact ⟨depth + 1, hd⟩

/-- An abrupt completion is passed on at once. -/
theorem bind_abrupt (h : Completes first store abrupt.completion after) :
    Completes (fun depth => first depth >>= next depth) store abrupt.completion after := by
  obtain ⟨depth, hd⟩ := h
  exact ⟨depth, bind_eq_of_abrupt (next depth) hd⟩

/-- A normal completion goes on, within a bound that is enough for both. -/
theorem bind {completion : Completion β} (hf : Completes first store (.normal value) middle)
    (hn : Completes (next · value) middle completion after)
    (deepens : ∀ {depth larger}, depth ≤ larger → (first depth).Within (first larger))
    (later : ∀ {depth larger}, depth ≤ larger → (next depth value).Within (next larger value)) :
    Completes (fun depth => first depth >>= next depth) store completion after := by
  obtain ⟨depth, hd⟩ := hf
  obtain ⟨larger, hl⟩ := hn
  have hd' := deepens (Nat.le_max_left depth larger) store _ hd
  have hl' := later (Nat.le_max_right depth larger) middle _ hl
  exact ⟨max depth larger, (bind_eq_of_normal hd').trans hl'⟩

end Completes

end Evaluation

open Evaluation

variable {scope : Scope} {store reached after : Store} {abrupt : Abrupt}

/-! ## Lists of parts -/

section

variable [ByteHash]

/-- Behind expressions that are evaluated to their ends, an abrupt completion is that of all. -/
theorem Expr.evalAll_passes {before es : List Expr} {objects : List Object}
    (hb : Completes (Expr.evalAll · scope before) store (.normal objects) reached)
    (h : Completes (Expr.evalAll · scope es) reached abrupt.completion after) :
    Completes (Expr.evalAll · scope (before ++ es)) store abrupt.completion after := by
  obtain ⟨depth, hd⟩ := hb
  induction before generalizing depth store objects with
  | nil =>
    cases depth with
    | zero => cases hd
    | succ depth =>
      cases hd
      exact h
  | cons e before ih =>
    cases depth with
    | zero => cases hd
    | succ depth =>
      obtain ⟨object, middle, he, ho⟩ := bind_eq_normal hd
      obtain ⟨others, last, hr, hp⟩ := bind_eq_normal ho
      cases hp
      refine .of_succ (.bind ⟨depth, he⟩ (.bind_abrupt (ih depth hr)) (Expr.eval_within · scope e) fun hle => ?_)
      exact (Expr.evalAll_within hle scope (before ++ es)).bind fun _ => within_refl _

/-- An object that gives a key is not at fault as one. -/
theorem Object.exists_keyOrFault_eq_ok {object : Object} (h : object.value.key?.isSome) :
    ∃ key, object.keyOrFault = .ok key := by
  obtain ⟨key, hk⟩ := Option.isSome_iff_exists.mp h
  refine ⟨key, ?_⟩
  unfold Object.keyOrFault
  rw [hk]

/-- A key that a hash can have is followed by its value, and that by the other entries. -/
theorem Expr.evalEntries_cons {name value : Expr} {entries : List (Expr × Expr)} {object : Object} {key : Key}
    {held : List (Key × Object × Object)} {completion : Completion (List (Key × Object × Object))}
    (hn : Completes (Expr.eval · scope name) store (.normal object) reached) (hk : object.keyOrFault = .ok key)
    (h : Completes (fun depth => Expr.eval depth scope value >>= fun second =>
      Expr.evalEntries depth scope (Assoc.insert key (object, second) held) entries) reached completion after) :
    Completes (Expr.evalEntries · scope held ((name, value) :: entries)) store completion after := by
  refine .of_succ (.bind hn ?_ (Expr.eval_within · scope name) fun hle => ?_)
  · rw [hk]
    exact h
  · exact (within_refl _).bind fun _ => (Expr.eval_within hle scope value).bind fun _ =>
      Expr.evalEntries_within hle scope _ entries

/-- Behind entries that are evaluated to their ends, what is evaluated goes on with what they gave. -/
theorem Expr.evalEntries_append {before entries : List (Expr × Expr)} {held later : List (Key × Object × Object)}
    {completion : Completion (List (Key × Object × Object))}
    (hb : Completes (Expr.evalEntries · scope held before) store (.normal later) reached)
    (h : Completes (Expr.evalEntries · scope later entries) reached completion after) :
    Completes (Expr.evalEntries · scope held (before ++ entries)) store completion after := by
  obtain ⟨depth, hd⟩ := hb
  induction before generalizing depth store held with
  | nil =>
    cases depth with
    | zero => cases hd
    | succ depth =>
      cases hd
      exact h
  | cons entry before ih =>
    obtain ⟨key, value⟩ := entry
    cases depth with
    | zero => cases hd
    | succ depth =>
      obtain ⟨name, first, hn, hchecked⟩ := bind_eq_normal hd
      obtain ⟨found, same, hf, hgiven⟩ := bind_eq_normal hchecked
      obtain ⟨hk, rfl⟩ := ofExcept_eq_normal hf
      obtain ⟨object, second, hv, hothers⟩ := bind_eq_normal hgiven
      exact Expr.evalEntries_cons ⟨depth, hn⟩ hk
        (.bind ⟨depth, hv⟩ (ih depth hothers) (Expr.eval_within · scope value) (Expr.evalEntries_within · scope _ _))

/-- Behind statements that are run to their ends, what is run goes on. -/
theorem Statement.runAll_append {before ss : List Statement} {last object : Object} {completion : Completion Object}
    (hb : Completes (Statement.runAll · scope last before) store (.normal object) reached)
    (h : Completes (Statement.runAll · scope object ss) reached completion after) :
    Completes (Statement.runAll · scope last (before ++ ss)) store completion after := by
  obtain ⟨depth, hd⟩ := hb
  obtain ⟨deeper, hs⟩ := h
  exact Statement.exists_runAll_append hd hs

/-! ## Frames -/

/-- **A frame passes an abrupt completion on**: what is at its place is all that is left to be evaluated. -/
theorem Frame.passes {part whole : Part} (frame : Frame part whole) (rest : frame.Rest) {term : part.Term}
    (hr : frame.Reaches scope store reached)
    (h : Completes (part.eval · scope term) reached abrupt.completion after) :
    Completes (whole.eval · scope (frame.fill rest term)) store abrupt.completion after := by
  cases frame with
  | unary | binaryLeft | condition | callee | collection | bind | leave =>
    obtain rfl := hr
    exact .of_succ (.bind_abrupt h)
  | standing | block =>
    obtain rfl := hr
    exact .of_succ h
  | binaryRight left | position left =>
    obtain ⟨object, hl⟩ := hr
    refine .of_succ (.bind hl (.bind_abrupt h) (Expr.eval_within · scope left) fun hle => ?_)
    exact (Expr.eval_within hle scope term).bind fun _ => within_refl _
  | consequence test | alternative test =>
    obtain ⟨object, ht, hc⟩ := hr
    refine .of_succ (.bind ht ?_ (Expr.eval_within · scope test) fun hle => ?_)
    · rw [hc]
      exact h
    · rw [hc]
      exact Statement.runAll_within hle scope .null term
  | argument function before line =>
    obtain ⟨object, objects, middle, hf, hb⟩ := hr
    have ha : Completes (Expr.evalAll · scope (term :: rest)) reached abrupt.completion after :=
      .of_succ (.bind_abrupt h)
    refine .of_succ (.bind hf (.bind_abrupt (Expr.evalAll_passes hb ha)) (Expr.eval_within · scope function) ?_)
    exact fun hle => (Expr.evalAll_within hle scope _).bind fun objects => Object.call_within hle object objects line
  | element before =>
    obtain ⟨objects, hb⟩ := hr
    have ha : Completes (Expr.evalAll · scope (term :: rest)) reached abrupt.completion after :=
      .of_succ (.bind_abrupt h)
    exact .of_succ (.bind_abrupt (Expr.evalAll_passes hb ha))
  | key before =>
    obtain ⟨held, hb⟩ := hr
    have ha : Completes (Expr.evalEntries · scope held ((term, rest.1) :: rest.2)) reached abrupt.completion after :=
      .of_succ (.bind_abrupt h)
    exact .of_succ (.bind_abrupt (Expr.evalEntries_append hb ha))
  | value before name =>
    obtain ⟨held, object, middle, hb, hn, hk⟩ := hr
    obtain ⟨key, hk⟩ := Object.exists_keyOrFault_eq_ok hk
    have ha : Completes (Expr.evalEntries · scope held ((name, term) :: rest)) middle abrupt.completion after :=
      Expr.evalEntries_cons hn hk (.bind_abrupt h)
    exact .of_succ (.bind_abrupt (Expr.evalEntries_append hb ha))
  | among before =>
    obtain ⟨object, hb⟩ := hr
    have ha : Completes (Statement.runAll · scope object (term :: rest)) reached abrupt.completion after :=
      .of_succ (.bind_abrupt h)
    exact Statement.runAll_append hb ha

/-- A context passes an abrupt completion on, frame by frame. -/
theorem Context.passes {part whole : Part} (context : Context part whole) (rest : context.Rest) {term : part.Term}
    (hr : context.Reaches scope store reached)
    (h : Completes (part.eval · scope term) reached abrupt.completion after) :
    Completes (whole.eval · scope (context.fill rest term)) store abrupt.completion after := by
  induction context generalizing store with
  | hole =>
    obtain rfl := hr
    exact h
  | within frame inner ih =>
    obtain ⟨middle, hf, hi⟩ := hr
    exact frame.passes rest.2 hf (ih rest.1 hi)

/-! ## Boundaries -/

/-- Evaluating a call in a scope comes to running the body of a function in a scope of its own: the callee is a
function of as many parameters as there are arguments. -/
def Expr.Enters (scope : Scope) (callee : Expr) (arguments : List Expr) (store : Store) (body : List Statement)
    (inner : Scope) (opened : Store) : Prop :=
  ∃ function parameters braceLine captured objects middle evaluated,
    Completes (Expr.eval · scope callee) store (.normal function) middle ∧
    function.value = .function parameters (.mk body braceLine) captured ∧
    Completes (Expr.evalAll · scope arguments) middle (.normal objects) evaluated ∧
    objects.length = parameters.length ∧
    enclose captured ((parameters.map Ident.name).zip objects) evaluated = some (.normal inner, opened)

/-- Where a body completes abruptly, the call that it was entered by ends the way of a `return` and passes a failure
on. -/
theorem Expr.Enters.caught {callee : Expr} {arguments : List Expr} {body : List Statement} {inner : Scope}
    {opened : Store} (he : Expr.Enters scope callee arguments store body inner opened) (line : Nat)
    (h : Completes (Statement.runAll · inner .null body) opened abrupt.completion after) :
    Completes (Expr.eval · scope (.call callee arguments line)) store abrupt.caught after := by
  obtain ⟨function, parameters, braceLine, captured, objects, middle, evaluated, hf, hv, ha, hl, ho⟩ := he
  have hcall : Completes (fun depth => Object.call depth function objects line) evaluated abrupt.caught after := by
    obtain ⟨depth, hd⟩ := h
    have hd : Statement.runAll depth inner .null body opened = some (abrupt.completion, after) := hd
    refine ⟨depth + 1, ?_⟩
    show Object.call (depth + 1) function objects line evaluated = _
    unfold Object.call
    rw [hv]
    dsimp only
    rw [if_pos hl, bind_eq_of_normal ho]
    unfold catchReturn
    dsimp only [Block.statements]
    rw [hd]
    cases abrupt <;> rfl
  refine .of_succ (.bind hf ?_ (Expr.eval_within · scope callee) fun hle => ?_)
  · exact .bind ha hcall (Expr.evalAll_within · scope arguments) (Object.call_within · function objects line)
  · exact (Expr.evalAll_within hle scope arguments).bind fun objects => Object.call_within hle function objects line

/-- A program ends as its statements complete. -/
theorem Program.exists_run_of_abrupt {program : Program}
    (h : Completes (Statement.runAll · scope .null program) store abrupt.completion after) :
    ∃ depth, Program.run depth scope program store = some (abrupt.completion.ended, after) := by
  obtain ⟨depth, hd⟩ := h
  have hd : Statement.runAll depth scope .null program store = some (abrupt.completion, after) := hd
  refine ⟨depth, ?_⟩
  unfold Program.run
  rw [hd]
  cases abrupt <;> rfl

/-- Evaluating a part in a scope of a store completes abruptly, and what the part stands in goes no further than to a
boundary. In whatever context the part is reached, a program of the whole ends with the value of the `return` or with
the failure, and a call that the whole is the body of completes normally with the value, or passes the failure on. -/
structure Part.Unwinds (part : Part) (scope : Scope) (term : part.Term) (store : Store) (abrupt : Abrupt)
    (after : Store) : Prop where
  completes : Completes (part.eval · scope term) store abrupt.completion after
  program : ∀ (context : Context part .statements) (rest : context.Rest) (start : Store),
    context.Reaches scope start store →
      ∃ depth, Program.run depth scope (context.fill rest term) start = some (abrupt.completion.ended, after)
  call : ∀ (context : Context part .statements) (rest : context.Rest) (start : Store),
    context.Reaches scope start store → ∀ caller callee arguments line origin,
      Expr.Enters caller callee arguments origin (context.fill rest term) scope start →
        Completes (Expr.eval · caller (.call callee arguments line)) origin abrupt.caught after

/-- **What completes abruptly stops all that is around it, up to a boundary and no further.** Where evaluation comes
to the place of a context and what stands there is left by a `return` or fails, the whole completes in that way and with
the very store that was left, whatever the rest behind the place is. -/
theorem Context.unwinds {part whole : Part} (context : Context part whole) {term : part.Term}
    (hr : context.Reaches scope store reached)
    (h : Completes (part.eval · scope term) reached abrupt.completion after) (rest : context.Rest) :
    whole.Unwinds scope (context.fill rest term) store abrupt after := by
  have hw := context.passes rest hr h
  refine ⟨hw, fun outer more start ho => ?_, fun outer more start ho caller callee arguments line origin he => ?_⟩
  · exact Program.exists_run_of_abrupt (outer.passes more ho hw)
  · exact he.caught line (outer.passes more ho hw)

end

/-- `let a = "five"; let x = [true, \x7ba: false == if (true) \x7b return a; \x7d, b: b\x7d][b]; b`, where `b` is not bound:
the program ends with `"five"` and `x` stays unbound. -/
theorem Context.unwinds_literal :
    let a : Expr := .ident ⟨"a", 1⟩
    let b : Expr := .ident ⟨"b", 1⟩
    let context : Context .expression .statements :=
      .within (.among [.bind ⟨"a", 1⟩ (.string "five" 1) 1]) <| .within (.bind ⟨"x", 1⟩ 1) <|
        .within (.collection 1) <| .within (.element [.boolean true 1] 1) <| .within (.value [] a 1) <|
          .within (.binaryRight (.boolean false 1) .equal 1) .hole
    let rest : context.Rest := (((((((), ()), [(b, b)]), []), b), ()), [.expression b 1])
    let term : Expr := .conditional (.boolean true 1) (.mk [.leave (some a) 1] 1) none 1
    let five : Object := ⟨3, .string "five"⟩
    let store : Store := ⟨#[[]], 3⟩
    let reached : Store := ⟨#[[("a", five)]], 4⟩
    context.Reaches (.root 0) store reached ∧
      Completes (Part.expression.eval · (.root 0) term) reached (Abrupt.returned five).completion reached ∧
      Part.statements.Unwinds (.root 0) (context.fill rest term) store (.returned five) reached := by
  intro a b context rest term five store reached
  have hr : context.Reaches (.root 0) store reached := by
    refine ⟨reached, ⟨.null, 5, rfl⟩, reached, rfl, reached, rfl, reached, ⟨[.ofBool true], 5, rfl⟩, reached, ?_, ?_⟩
    · exact ⟨[], five, reached, ⟨5, rfl⟩, ⟨5, rfl⟩, rfl⟩
    · exact ⟨reached, ⟨.ofBool false, 5, rfl⟩, rfl⟩
  have ht : Completes (Part.expression.eval · (.root 0) term) reached (Abrupt.returned five).completion reached :=
    ⟨5, rfl⟩
  exact ⟨hr, ht, context.unwinds hr ht rest⟩

end TinyScript
