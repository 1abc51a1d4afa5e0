import TinyScript.Proofs.Matching.Evaluation
import TinyScript.Proofs.Matching.Noninterference
import TinyScript.Proofs.Soundness.Evaluation
import TinyScript.Text.Fx

/-! # Expressions leave no trace

An expression without a `let` outside the functions in it binds nothing in any scope that there is. All it
leaves behind are identities that have been given out and scopes that have been opened, and no program can tell
where these stand: **after evaluating such an expression, with whatever end, every program ends as it would have
ended before** (`Store.Sound.eval_traceless`), and the expression itself gives the same again.
-/

namespace TinyScript

/-- Completions of one kind, with objects that look the same or with one failure. -/
inductive Completion.LooksLike : Completion Object → Completion Object → Prop where
  | normal {object object' : Object} (h : object.face = object'.face) :
      Completion.LooksLike (.normal object) (.normal object')
  | returned {object object' : Object} (h : object.face = object'.face) :
      Completion.LooksLike (.returned object) (.returned object')
  | failed (failure : Failure) : Completion.LooksLike (.failed failure) (.failed failure)

variable {m : Matching} {links : Links} {scope : Scope}

mutual

/-- The functions that an object holds have scopes of a table when the object has. -/
theorem Object.Linked.closures : ∀ {object : Object}, object.Linked links →
    ∀ closure ∈ object.closures, closure.scope.Linked links
  | ⟨_, _⟩, h => Value.Linked.closures h

/-- A linked value holds functions with linked scopes alone. -/
theorem Value.Linked.closures : ∀ {value : Value}, value.Linked links →
    ∀ closure ∈ value.closures, closure.scope.Linked links
  | .number _, _, _, hm | .boolean _, _, _, hm | .null, _, _, hm | .string _, _, _, hm => nomatch hm
  | .builtin _, _, _, hm | .error _, _, _, hm => nomatch hm
  | .array _, h, closure, hm => Object.LinkedAll.closures h closure hm
  | .hash _, h, closure, hm => Object.LinkedEntries.closures h closure hm
  | .function _ _ _, h, _, hm => List.mem_singleton.mp hm ▸ h

theorem Object.LinkedAll.closures : ∀ {objects : List Object}, Object.LinkedAll links objects →
    ∀ closure ∈ Object.closuresAll objects, closure.scope.Linked links
  | [], _, _, hm => nomatch hm
  | _ :: _, h, closure, hm =>
    (List.mem_append.mp hm).elim (Object.Linked.closures h.1 closure) (Object.LinkedAll.closures h.2 closure)

theorem Object.LinkedEntries.closures : ∀ {entries : List (Key × Object × Object)},
    Object.LinkedEntries links entries → ∀ closure ∈ Object.closuresEntries entries, closure.scope.Linked links
  | [], _, _, hm => nomatch hm
  | (_, _, _) :: _, h, closure, hm =>
    (List.mem_append.mp hm).elim (Object.Linked.closures h.1.1 closure) fun hm =>
      (List.mem_append.mp hm).elim (Object.Linked.closures h.1.2 closure)
        (Object.LinkedEntries.closures h.2 closure)

end

/-- The matching of two runs, the second of which begins later: with more objects made and more scopes opened,
but nothing else changed. -/
def Matching.later (store after : Store) (h : Object.firstFresh ≤ store.nextId)
    (h' : Object.firstFresh ≤ after.nextId) : Matching where
  objects := .shifted store.nextId after.nextId h h'
  scopes := .shifted store.bindings.size after.bindings.size
  names _ := True

variable {store after : Store}

section Later

variable (h : Object.firstFresh ≤ store.nextId) (h' : Object.firstFresh ≤ after.nextId)

/-- The scopes that were there before stand for themselves. -/
theorem Scope.Linked.alike_later (hs : scope.Linked links) (hl : store.Linked links)
    (hz : store.bindings.size ≤ after.bindings.size) : scope.Alike (.later store after h h') scope := by
  have hself : ∀ id < links.length, (Matching.later store after h h').scopes.relates id id := fun id hid =>
    have hid := hl.length_eq ▸ hid
    .inl ⟨hid, Nat.lt_of_lt_of_le hid hz, rfl⟩
  induction scope with
  | root id => exact .root (hself id hs.id_lt)
  | enclosed id outer ih => exact .enclosed (hself id hs.id_lt) (ih hs.2)

variable [ByteHash]

/-- The objects that were bound before stand for themselves. -/
theorem Object.Linked.alike_later {object : Object} (hs : object.Sound store.nextId) (ho : object.Linked links)
    (hl : store.Linked links) (hz : store.bindings.size ≤ after.bindings.size)
    (hi : store.nextId ≤ after.nextId) : object.Alike (.later store after h h') object := by
  refine hs.alike_self ⟨fun id hid => .inl ⟨hid, Nat.lt_of_lt_of_le hid hi, rfl⟩, fun closure hc => ?_⟩
  exact ⟨(ho.closures closure hc).alike_later h h' hl hz, fun _ _ => trivial⟩

/-- A store in which nothing is bound anew is alike to the store before. -/
theorem Store.Sound.alike_later (hs : store.Sound) (hl : store.Linked links)
    (hw : WritesOnly scope [] store after) (hi : store.nextId ≤ after.nextId) :
    store.Alike (.later store after h h') after := by
  refine ⟨fun n => .inr ⟨Nat.le_add_right _ n, by omega⟩, fun n => .inr ⟨Nat.le_add_right _ n, by omega⟩, ?_⟩
  rintro id id' (⟨hid, -, rfl⟩ | ⟨hid, he⟩) name -
  · have hf : Assoc.find? name (after.locals id') = Assoc.find? name (store.locals id') := by
      by_cases hs : id' = scope.id
      · rw [hs]
        exact hw.find?_eq name List.not_mem_nil
      · rw [hw.locals_eq id' hid hs]
    rw [hf]
    cases hb : Assoc.find? name (store.locals id') with
    | none => exact .none
    | some object =>
      have hm := Assoc.mem_of_find? hb
      exact .some ((hl.bound _ _ hm).alike_later h h' (hs.bound _ _ hm) hl hw.size_le hi)
  · rw [Store.locals_eq_nil hid, Store.locals_eq_nil (show after.bindings.size ≤ id' by omega)]
    exact .none

end Later

/-! ## Like things look the same -/

theorem Object.Alike.face_eq {object object' : Object} (h : object.Alike m object') :
    object.face = object'.face := by
  unfold Object.face
  rw [h.kind_eq, h.render_eq]

/-- Related scopes show the same objects under every name of the matching. -/
theorem Store.Alike.face_eq {store store' : Store} (h : store.Alike m store') {id id' : Nat}
    (hr : m.scopes.relates id id') {name : String} (hn : m.names name) :
    store.face id name = store'.face id' name := by
  have hb := h.bound hr name hn
  unfold Store.face
  generalize Assoc.find? name (store.locals id) = found at hb ⊢
  generalize Assoc.find? name (store'.locals id') = found' at hb ⊢
  cases hb with
  | none => rfl
  | some h => exact congrArg some h.face_eq

theorem Program.EndsAlike.map_face_eq {ended ended' : Except Failure Object}
    (h : Program.EndsAlike m ended ended') : ended.map Object.face = ended'.map Object.face := by
  cases h with
  | ok h => exact congrArg Except.ok h.face_eq
  | error failure => rfl

theorem Completion.Alike.looksLike {completion completion' : Completion Object}
    (h : completion.Alike m (Object.Alike m) completion') : completion.LooksLike completion' := by
  cases h with
  | normal h => exact .normal h.face_eq
  | returned h => exact .returned h.face_eq
  | failed failure => exact .failed failure

section

variable [ByteHash]

/-- **Evaluating an expression that has no `let` outside its functions leaves no trace.** Within every bound a
program ends afterwards as it ends before, and leaves names bound to objects that look the same; and the
expression itself completes the same way again. The store is any one whose objects are sound and whose
functions agree on the places of scopes, as every store of a session is (`Session.Reachable.sound`,
`Session.Reachable.linked`). -/
theorem Store.Sound.eval_traceless (h : store.Sound) (hl : store.Linked links) (hs : scope.Linked links)
    {e : Expr} (he : e.letNames = []) {depth : Nat} {completion : Completion Object}
    (hr : Expr.eval depth scope e store = some (completion, after)) :
    (∀ program bound, Option.Rel
        (fun r r' => r.1.map Object.face = r'.1.map Object.face ∧
          ∀ id < store.bindings.size, ∀ name, r.2.face id name = r'.2.face id name)
        (Program.run bound scope program store) (Program.run bound scope program after)) ∧
      ∃ completion' last, Expr.eval depth scope e after = some (completion', last) ∧
        completion.LooksLike completion' := by
  have hw := (evalWrites depth).eval scope e store completion after (hl.length_eq ▸ hs.id_lt) hr
  rw [he] at hw
  obtain ⟨hi, _, _⟩ := (evalSound depth).eval h.firstFresh_le scope e _ _ _ h (Nat.le_refl _) hr
  have hf : Object.firstFresh ≤ after.nextId := Nat.le_trans h.firstFresh_le hi
  have ha := h.alike_later h.firstFresh_le hf hl hw hi
  have hself := hs.alike_later h.firstFresh_le hf hl hw.size_le
  refine ⟨fun program bound => ?_, ?_⟩
  · have hn : ∀ name ∈ Statement.namesAll program, (Matching.later store after h.firstFresh_le hf).names name :=
      fun _ _ => trivial
    have hp := Program.run_alike ha hself hn bound
    generalize Program.run bound scope program store = first at hp ⊢
    generalize Program.run bound scope program after = second at hp ⊢
    cases hp with
    | none => exact .none
    | some hp =>
      refine .some ⟨hp.1.map_face_eq, fun id hid name => ?_⟩
      exact hp.2.face_eq (.inl ⟨hid, Nat.lt_of_lt_of_le hid hw.size_le, rfl⟩) trivial
  · have hp := (evalMatches _ depth).eval hself e (fun _ _ => trivial) _ _ ha
    rw [hr] at hp
    generalize Expr.eval depth scope e after = second at hp ⊢
    cases hp with
    | @some r r' hp =>
      obtain ⟨completion', last⟩ := r'
      exact ⟨completion', last, rfl, hp.1.looksLike⟩

end

/-- A call that makes a scope and two objects, which no later program sees. -/
theorem Store.Sound.eval_traceless_call :
    let f : Object := ⟨3, .function [⟨"x", 1⟩] (.mk [.expression (.array [.ident ⟨"x", 1⟩] 1) 1] 1) (.root 0)⟩
    let store : Store := ⟨#[[("f", f)]], 4⟩
    let after : Store := ⟨#[[("f", f)], [("x", ⟨4, .string "a"⟩)]], 6⟩
    let e : Expr := .call (.ident ⟨"f", 1⟩) [.string "a" 1] 1
    (∀ program bound, Option.Rel
        (fun r r' => r.1.map Object.face = r'.1.map Object.face ∧
          ∀ id < store.bindings.size, ∀ name, r.2.face id name = r'.2.face id name)
        (Program.run bound (.root 0) program store) (Program.run bound (.root 0) program after)) ∧
      ∃ completion last, Expr.eval 20 (.root 0) e after = some (completion, last) ∧
        (Completion.normal ⟨5, .array [⟨4, .string "a"⟩]⟩).LooksLike completion := by
  intro f store after e
  have hs : store.Sound := by
    refine ⟨by decide, fun id binding hm => ?_⟩
    match id, hm with
    | 0, hm =>
      obtain rfl := List.mem_singleton.mp hm
      exact ⟨by decide, trivial⟩
    | _ + 1, hm => cases hm
  have hl : store.Linked [none] := by
    refine ⟨rfl, fun outer ho => ?_, fun id binding hm => ?_⟩
    · cases List.mem_singleton.mp ho
    match id, hm with
    | 0, hm =>
      obtain rfl := List.mem_singleton.mp hm
      exact rfl
    | _ + 1, hm => cases hm
  have hr : Scope.Linked [none] (.root 0) := rfl
  exact hs.eval_traceless hl hr (e := e) rfl rfl

end TinyScript
