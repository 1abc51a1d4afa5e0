import TinyScript.Proofs.Evaluation.Rules
import TinyScript.Proofs.Recoding.Operations

/-! # Evaluation of recoded programs

Two evaluations **correspond** where, on stores that are the same but for recoding, each completes if the other does, and
alike: with results, errors and stores that are the same but for recoding. They need not do so within one bound, as code
that is written in another way can need more calls. So a completion of the one within a bound is a completion of the
other from some bound on, which **settles** how that one completes. What is composed of parts that correspond
corresponds (`Evaluation.Corresponds.bind`).
-/

namespace TinyScript

/-- A completion, with other code and with another value. -/
def Completion.recoded {α β : Type} (r : Recoding) (g : α → β) : Completion α → Completion β
  | .normal value => .normal (g value)
  | .returned object => .returned (object.recoded r)
  | .failed failure => .failed failure

/-- An abrupt way to complete, with other code. -/
def Abrupt.recoded (r : Recoding) : Abrupt → Abrupt
  | .returned object => .returned (object.recoded r)
  | .failed failure => .failed failure

/-- A completion behind a call, where a `return` ends. -/
def Completion.caught : Completion Object → Completion Object
  | .returned object => .normal object
  | completion => completion

theorem Abrupt.completion_recoded {α β : Type} {r : Recoding} {g : α → β} (abrupt : Abrupt) :
    abrupt.completion.recoded r g = (abrupt.recoded r).completion := by
  cases abrupt <;> rfl

/-- What is abrupt with other code is abrupt. -/
theorem Completion.exists_abrupt_of_recoded {α β : Type} {r : Recoding} {g : α → β} {completion : Completion α}
    {abrupt' : Abrupt} (h : completion.recoded r g = abrupt'.completion) :
    ∃ abrupt : Abrupt, completion = abrupt.completion ∧ abrupt.recoded r = abrupt' := by
  cases completion with
  | normal value => cases abrupt' <;> cases h
  | returned object =>
    cases abrupt' <;> cases h
    exact ⟨.returned object, rfl, rfl⟩
  | failed failure =>
    cases abrupt' <;> cases h
    exact ⟨.failed failure, rfl, rfl⟩

theorem Completion.caught_recoded {r : Recoding} (completion : Completion Object) :
    (completion.recoded r (Object.recoded r)).caught = completion.caught.recoded r (Object.recoded r) := by
  cases completion <;> rfl

namespace Evaluation

variable {α β γ δ : Type} {store middle after : Store}

theorem catchReturn_eq_map (evaluation : Evaluation Object) (store : Store) :
    evaluation.catchReturn store = (evaluation store).map fun c => (c.1.caught, c.2) := by
  unfold catchReturn
  cases evaluation store with
  | none => rfl
  | some completed =>
    obtain ⟨completion, after⟩ := completed
    cases completion <;> rfl

/-- From some bound on an evaluation completes in one way. -/
def Settles (evaluation : Nat → Evaluation α) (store : Store) (completion : Completion α) (after : Store) : Prop :=
  ∃ bound, ∀ depth, bound ≤ depth → evaluation depth store = some (completion, after)

section Settles

variable {evaluation : Nat → Evaluation α} {next : Nat → α → Evaluation β} {completion : Completion α} {value : α}

theorem settles_const {evaluation : Evaluation α} (h : evaluation store = some (completion, after)) :
    Settles (fun _ => evaluation) store completion after :=
  ⟨0, fun _ _ => h⟩

theorem Settles.completes (h : Settles evaluation store completion after) :
    Completes evaluation store completion after := by
  obtain ⟨bound, h⟩ := h
  exact ⟨bound, h bound (Nat.le_refl bound)⟩

/-- What persists is settled by any completion. -/
theorem Persists.settles (hp : Persists evaluation) (h : Completes evaluation store completion after) :
    Settles evaluation store completion after := by
  obtain ⟨bound, h⟩ := h
  exact ⟨bound, fun _ hle => hp hle store _ h⟩

theorem Settles.of_succ (h : Settles (fun depth => evaluation (depth + 1)) store completion after) :
    Settles evaluation store completion after := by
  obtain ⟨bound, h⟩ := h
  refine ⟨bound + 1, fun depth hle => ?_⟩
  obtain ⟨larger, rfl⟩ := Nat.exists_eq_add_of_le' (Nat.le_trans (Nat.le_add_left 1 bound) hle)
  exact h larger (Nat.le_of_succ_le_succ hle)

theorem Settles.bind {completion : Completion β} (h : Settles evaluation store (.normal value) middle)
    (hn : Settles (next · value) middle completion after) :
    Settles (fun depth => evaluation depth >>= next depth) store completion after := by
  obtain ⟨bound, h⟩ := h
  obtain ⟨later, hn⟩ := hn
  refine ⟨max bound later, fun depth hle => ?_⟩
  exact (bind_eq_of_normal (h depth (Nat.le_trans (Nat.le_max_left bound later) hle))).trans
    (hn depth (Nat.le_trans (Nat.le_max_right bound later) hle))

theorem Settles.bind_abrupt {abrupt : Abrupt} (h : Settles evaluation store abrupt.completion after) :
    Settles (fun depth => evaluation depth >>= next depth) store abrupt.completion after := by
  obtain ⟨bound, h⟩ := h
  exact ⟨bound, fun depth hle => bind_eq_of_abrupt (next depth) (h depth hle)⟩

theorem Settles.catchReturn {evaluation : Nat → Evaluation Object} {completion : Completion Object}
    (h : Settles evaluation store completion after) :
    Settles (fun depth => (evaluation depth).catchReturn) store completion.caught after := by
  obtain ⟨bound, h⟩ := h
  refine ⟨bound, fun depth hle => ?_⟩
  show (evaluation depth).catchReturn store = _
  rw [catchReturn_eq_map, h depth hle]
  rfl

end Settles

/-! ## Correspondence -/

variable {r : Recoding} {g : α → β} {h : γ → δ} {depth : Nat}

/-- What the first evaluation completes with within a bound, the second one completes with in the end, recoded; and what
the second one completes with within the bound is what the first one completes with in the end, recoded. -/
structure Corresponds (r : Recoding) (g : α → β) (depth : Nat) (first : Nat → Evaluation α)
    (second : Nat → Evaluation β) : Prop where
  forth : ∀ store completion after, first depth store = some (completion, after) →
    Settles second (store.recoded r) (completion.recoded r g) (after.recoded r)
  back : ∀ store completion' after', second depth (store.recoded r) = some (completion', after') →
    ∃ completion after, Settles first store completion after ∧ completion.recoded r g = completion' ∧
      after.recoded r = after'

/-- At first nothing completes. -/
theorem corresponds_exhausted {first : Nat → Evaluation α} {second : Nat → Evaluation β} (hf : first 0 = exhausted)
    (hs : second 0 = exhausted) : Corresponds r g 0 first second := by
  constructor
  · intro store completion after he
    rw [hf] at he
    cases he
  · intro store completion after he
    rw [hs] at he
    cases he

/-- Evaluations that are the same but for recoding correspond. -/
theorem corresponds_const {first : Evaluation α} {second : Evaluation β}
    (he : ∀ store, second (store.recoded r) = (first store).map fun c => (c.1.recoded r g, c.2.recoded r)) :
    Corresponds r g depth (fun _ => first) fun _ => second := by
  constructor
  · intro store completion after hf
    refine settles_const ?_
    rw [he, hf]
    rfl
  · intro store completion' after' hs
    rw [he] at hs
    obtain ⟨⟨completion, after⟩, hf, hc⟩ := Option.map_eq_some_iff.mp hs
    cases hc
    exact ⟨completion, after, settles_const hf, rfl, rfl⟩

theorem corresponds_pure (value : α) :
    Corresponds r g depth (fun _ => (pure value : Evaluation α)) fun _ => pure (g value) :=
  corresponds_const fun _ => rfl

theorem corresponds_fail (fault : Fault) (line : Nat) :
    Corresponds r g depth (fun _ => (fail fault line : Evaluation α)) fun _ => fail fault line :=
  corresponds_const fun _ => rfl

theorem corresponds_leave (object : Object) :
    Corresponds r g depth (fun _ => (leave object : Evaluation α)) fun _ => leave (object.recoded r) :=
  corresponds_const fun _ => rfl

theorem corresponds_allocate (value : Value) :
    Corresponds r (Object.recoded r) depth (fun _ => allocate value) fun _ => allocate (value.recoded r) :=
  corresponds_const fun _ => rfl

theorem corresponds_lookup (scope : Scope) (name : String) :
    Corresponds r (Option.map (Object.recoded r)) depth (fun _ => lookup scope name) fun _ => lookup scope name := by
  refine corresponds_const fun store => ?_
  unfold lookup
  rw [store.get?_recoded]
  rfl

theorem corresponds_assign (scope : Scope) (name : String) (object : Object) :
    Corresponds r id depth (fun _ => assign scope name object) fun _ => assign scope name (object.recoded r) := by
  refine corresponds_const fun store => ?_
  unfold assign
  rw [store.set_recoded]
  rfl

theorem corresponds_enclose (outer : Scope) (bindings : List (String × Object)) :
    Corresponds r id depth (fun _ => enclose outer bindings) fun _ => enclose outer (Bindings.recoded r bindings) := by
  refine corresponds_const fun store => ?_
  unfold enclose
  rw [store.enclose_recoded]
  exact congrArg (fun after => some (Completion.normal _, after)) (Store.setAll_recoded _ _ bindings)

theorem corresponds_ofExcept (line : Nat) (result : Except Fault α) :
    Corresponds r g depth (fun _ => ofExcept line result) fun _ => ofExcept line (result.map g) := by
  cases result <;> exact corresponds_const fun _ => rfl

section Bind

variable {first : Nat → Evaluation α} {second : Nat → Evaluation β}

/-- What goes on from corresponding results in corresponding ways corresponds. -/
theorem Corresponds.bind {next : Nat → α → Evaluation γ} {later : Nat → β → Evaluation δ}
    (hf : Corresponds r g depth first second)
    (hn : ∀ value, Corresponds r h depth (next · value) (later · (g value))) :
    Corresponds r h depth (fun depth => first depth >>= next depth) fun depth => second depth >>= later depth := by
  constructor
  · intro store completion after he
    rcases bind_eq_some_or_abrupt he with ⟨value, middle, hv, hl⟩ | ⟨abrupt, ha, rfl⟩
    · exact (hf.forth _ _ _ hv).bind ((hn value).forth _ _ _ hl)
    · have hs := hf.forth _ _ _ ha
      rw [abrupt.completion_recoded] at hs ⊢
      exact hs.bind_abrupt
  · intro store completion' after' he
    rcases bind_eq_some_or_abrupt he with ⟨value', middle', hv, hl⟩ | ⟨abrupt', hs', rfl⟩
    · obtain ⟨completion, middle, hs, hc, rfl⟩ := hf.back _ _ _ hv
      cases completion with
      | normal value =>
        cases hc
        obtain ⟨ended, after, hl, hc, ha⟩ := (hn value).back _ _ _ hl
        exact ⟨ended, after, hs.bind hl, hc, ha⟩
      | returned object => cases hc
      | failed failure => cases hc
    · obtain ⟨completion, after, hs, hc, ha⟩ := hf.back _ _ _ hs'
      obtain ⟨abrupt, rfl, rfl⟩ := Completion.exists_abrupt_of_recoded hc
      exact ⟨abrupt.completion, after, hs.bind_abrupt, abrupt.completion_recoded, ha⟩

/-- What corresponds within a bound still does with one more call around it. -/
theorem Corresponds.of_succ (hc : Corresponds r g depth (fun depth => first (depth + 1)) fun depth => second (depth + 1)) :
    Corresponds r g (depth + 1) first second := by
  constructor
  · intro store completion after he
    exact (hc.forth store completion after he).of_succ
  · intro store completion' after' he
    obtain ⟨completion, after, hs, hg, ha⟩ := hc.back store completion' after' he
    exact ⟨completion, after, hs.of_succ, hg, ha⟩

end Bind

/-- In the place of the first evaluation may stand what completes no earlier within a bound, and alike in the end. -/
theorem Corresponds.replace_left {first first' : Nat → Evaluation α} {second : Nat → Evaluation β}
    (hc : Corresponds r g depth first second)
    (hs : ∀ {store completion after}, Settles first store completion after → Settles first' store completion after)
    (hw : (first' depth).Within (first depth)) : Corresponds r g depth first' second := by
  constructor
  · intro store completion after he
    exact hc.forth store completion after (hw store _ he)
  · intro store completion' after' he
    obtain ⟨completion, after, hf, hg, ha⟩ := hc.back store completion' after' he
    exact ⟨completion, after, hs hf, hg, ha⟩

/-- The same in the place of the second one. -/
theorem Corresponds.replace_right {first : Nat → Evaluation α} {second second' : Nat → Evaluation β}
    (hc : Corresponds r g depth first second)
    (hs : ∀ {store completion after}, Settles second store completion after → Settles second' store completion after)
    (hw : (second' depth).Within (second depth)) : Corresponds r g depth first second' := by
  constructor
  · intro store completion after he
    exact hs (hc.forth store completion after he)
  · intro store completion' after' he
    exact hc.back store completion' after' (hw _ _ he)

theorem Corresponds.catchReturn {first second : Nat → Evaluation Object}
    (hf : Corresponds r (Object.recoded r) depth first second) :
    Corresponds r (Object.recoded r) depth (fun depth => (first depth).catchReturn)
      fun depth => (second depth).catchReturn := by
  constructor
  · intro store completion after he
    rw [catchReturn_eq_map] at he
    obtain ⟨⟨ended, after⟩, hs, hc⟩ := Option.map_eq_some_iff.mp he
    cases hc
    rw [← ended.caught_recoded]
    exact (hf.forth _ _ _ hs).catchReturn
  · intro store completion' after' he
    rw [catchReturn_eq_map] at he
    obtain ⟨⟨ended', after'⟩, hs', hc⟩ := Option.map_eq_some_iff.mp he
    cases hc
    obtain ⟨ended, after, hs, rfl, ha⟩ := hf.back _ _ _ hs'
    exact ⟨ended.caught, after, hs.catchReturn, ended.caught_recoded.symm, ha⟩

theorem corresponds_produce (line : Nat) (result : Except Fault Produced) :
    Corresponds r (Object.recoded r) depth (fun _ => produce line result)
      fun _ => produce line (result.map (Produced.recoded r)) := by
  refine (corresponds_ofExcept line result).bind fun produced => ?_
  cases produced with
  | existing object => exact corresponds_pure object
  | fresh value => exact corresponds_allocate value

end Evaluation

end TinyScript
