import TinyScript.Proofs.Matching.Evaluation
import TinyScript.Text.Fx

/-! # What a program cannot see does not matter

A program sees the names that occur in it, in its scope and the scopes around it, and through the functions
that are bound there it sees the names of their bodies, in the scopes that they were made in. Scopes and names
that are closed under this are all that it depends on: **in two stores that agree on these bindings it ends
alike, and afterwards the stores agree on them again** (`Store.Confines.run_agree`). All other bindings may
differ, or be there in one store alone. So there is no dynamic scoping: a caller's own names do not reach into
what it calls.

Objects of two stores cannot have the same identities in general, as one store may have made more objects than
the other. They are compared up to a pairing of identities.
-/

namespace TinyScript

/-- Objects are alike up to their identities when their functions have the same scopes. -/
def Matching.upTo (ids : Identities) : Matching := ⟨ids, .same, fun _ => True⟩

/-- Scopes and names of a store that evaluation does not leave: with a scope the scopes around it, and with a
name that is bound there the scopes and the names of all functions that it stands for. -/
structure Store.Confines (region : Scope → Prop) (names : String → Prop) (store : Store) : Prop where
  outer : ∀ scope outer, region scope → scope.outer? = some outer → region outer
  closures : ∀ scope, region scope → ∀ name, names name →
    ∀ object ∈ Assoc.find? name (store.locals scope.id), ∀ closure ∈ object.closures,
      region closure.scope ∧ ∀ inner ∈ closure.names, names inner

/-- Stores with the same scopes, in some of which some names are bound to the same objects, up to identity.
Identities that are still to come stand for each other in their order. -/
structure Store.AgreeOn (region : Scope → Prop) (names : String → Prop) (ids : Identities)
    (store store' : Store) : Prop where
  size_eq : store.bindings.size = store'.bindings.size
  nextIds : ∀ n, ids.relates (store.nextId + n) (store'.nextId + n)
  bound : ∀ scope, region scope → ∀ name, names name →
    Option.Rel (Object.Alike (.upTo ids)) (Assoc.find? name (store.locals scope.id))
      (Assoc.find? name (store'.locals scope.id))

/-- Nothing is bound in a scope that is not there. -/
theorem Store.locals_eq_nil {store : Store} {id : Nat} (h : store.bindings.size ≤ id) : store.locals id = [] := by
  unfold Store.locals
  rw [Array.getElem?_eq_none h]
  rfl

/-- The numbers of the scopes of a region, and of those to come. -/
def Pairing.region (region : Scope → Prop) (size : Nat) : Pairing where
  relates id id' := id = id' ∧ ((∃ scope, region scope ∧ scope.id = id) ∨ size ≤ id)
  eq_iff h h' := by rw [h.1, h'.1]

/-- The matching of runs that stay in a region and see some names. -/
def Matching.within (region : Scope → Prop) (names : String → Prop) (ids : Identities) (size : Nat) : Matching :=
  ⟨ids, .region region size, names⟩

namespace Store

variable {region : Scope → Prop} {names : String → Prop} {ids : Identities} {store store' : Store}
  {scope : Scope} {size : Nat}

/-- Up to identity every scope stands for itself. -/
theorem alike_upTo : scope.Alike (.upTo ids) scope := by
  induction scope with
  | root id => exact .root rfl
  | enclosed id outer ih => exact .enclosed rfl ih

/-- A scope of the region stands for itself. -/
theorem Confines.alike_self (h : store.Confines region names) (hs : region scope) :
    scope.Alike (.within region names ids size) scope := by
  induction scope with
  | root id => exact .root ⟨rfl, .inl ⟨_, hs, rfl⟩⟩
  | enclosed id outer ih => exact .enclosed ⟨rfl, .inl ⟨_, hs, rfl⟩⟩ (ih (h.outer _ _ hs rfl))

/-- What is bound in the region stays in the region. -/
theorem Confines.takes (h : store.Confines region names) (hs : region scope) {name : String}
    (hn : names name) {object : Object} (ho : object ∈ Assoc.find? name (store.locals scope.id)) :
    (Matching.upTo ids).Takes (.within region names ids size) object.closures := by
  refine ⟨id, fun closure hc scope' ha _ => ?_⟩
  obtain ⟨hr, hin⟩ := h.closures scope hs name hn object ho closure hc
  have he : closure.scope = scope' := ha.eq_of_same id
  subst he
  exact ⟨h.alike_self hr, hin⟩

/-- Likeness within a region is likeness up to identity. -/
theorem takes_upTo (closures : List Closure) :
    (Matching.within region names ids size).Takes (.upTo ids) closures :=
  ⟨id, fun _ _ _ ha _ => ⟨ha.mono And.left, fun _ _ => trivial⟩⟩

/-- Stores of as many scopes that bind the same sound objects in a region agree on it. -/
theorem Sound.agreeOn [ByteHash] (hs : store.Sound) (hs' : store'.Sound) (hz : store.bindings.size = store'.bindings.size)
    (hb : ∀ scope, region scope → ∀ name, names name →
      Assoc.find? name (store.locals scope.id) = Assoc.find? name (store'.locals scope.id)) :
    store.AgreeOn region names (.shifted store.nextId store'.nextId hs.firstFresh_le hs'.firstFresh_le) store' := by
  refine ⟨hz, fun n => .inr ⟨Nat.le_add_right _ n, by omega⟩, fun scope hr name hn => ?_⟩
  have he := hb scope hr name hn
  rw [← he]
  cases hf : Assoc.find? name (store.locals scope.id) with
  | none => exact .none
  | some object =>
    have hm := hs.bound _ _ (Assoc.mem_of_find? hf)
    have hm' := hs'.bound _ _ (Assoc.mem_of_find? (he ▸ hf))
    have hmin : object.Sound (min store.nextId store'.nextId) := by
      rcases Nat.le_total store.nextId store'.nextId with hle | hle
      · rwa [Nat.min_eq_left hle]
      · rwa [Nat.min_eq_right hle]
    refine .some (hmin.alike_self ⟨fun id hid => .inl ?_, fun _ _ => ⟨alike_upTo, fun _ _ => trivial⟩⟩)
    exact ⟨by omega, by omega, rfl⟩

/-- Stores that agree on what a region shows are alike for a run in it. -/
theorem AgreeOn.alike (ha : store.AgreeOn region names ids store') (hc : store.Confines region names) :
    store.Alike (.within region names ids store.bindings.size) store' := by
  refine ⟨ha.nextIds, fun n => ?_, ?_⟩
  · exact ⟨congrArg (· + n) ha.size_eq, .inr (Nat.le_add_right _ n)⟩
  rintro id _ ⟨rfl, ⟨scope, hs, rfl⟩ | hid⟩ name hn
  · have hb := ha.bound scope hs name hn
    have ht : ∀ object ∈ Assoc.find? name (store.locals scope.id),
        (Matching.upTo ids).Takes (.within region names ids store.bindings.size) object.closures :=
      fun _ ho => hc.takes hs hn ho
    generalize Assoc.find? name (store.locals scope.id) = found at hb ht ⊢
    generalize Assoc.find? name (store'.locals scope.id) = found' at hb ⊢
    cases hb with
    | none => exact .none
    | some h => exact .some (h.transfer (ht _ rfl))
  · rw [locals_eq_nil hid, locals_eq_nil (ha.size_eq ▸ hid)]
    exact .none

/-- Stores that a run in a region has left alike agree on what the region shows. -/
theorem Alike.agreeOn (h : store.Alike (.within region names ids size) store') :
    store.AgreeOn region names ids store' := by
  refine ⟨(h.nextScopes 0).1, h.nextIds, fun scope hs name hn => ?_⟩
  have hb := h.bound ⟨rfl, .inl ⟨scope, hs, rfl⟩⟩ name hn
  generalize Assoc.find? name (store.locals scope.id) = found at hb ⊢
  generalize Assoc.find? name (store'.locals scope.id) = found' at hb ⊢
  cases hb with
  | none => exact .none
  | some h => exact .some (h.transfer (takes_upTo _))

/-- **Stores that agree on what a program can see of them do so after running it, and it ends alike in both**:
within the same bounds, with the same value up to identity or with the same failure. -/
theorem Confines.run_agree [ByteHash] (hc : store.Confines region names) (ha : store.AgreeOn region names ids store')
    (hs : region scope) {program : Program} (hn : ∀ name ∈ Statement.namesAll program, names name)
    (depth : Nat) :
    Option.Rel (fun r r' => Program.EndsAlike (.upTo ids) r.1 r'.1 ∧ r.2.AgreeOn region names ids r'.2)
      (Program.run depth scope program store) (Program.run depth scope program store') := by
  have hr := Program.run_alike (ha.alike hc) (hc.alike_self hs) hn depth
  generalize Program.run depth scope program store = first at hr ⊢
  generalize Program.run depth scope program store' = second at hr ⊢
  cases hr with
  | none => exact .none
  | @some r r' hr =>
    obtain ⟨ended, after⟩ := r
    obtain ⟨ended', after'⟩ := r'
    obtain ⟨he, hl⟩ := hr
    refine .some ⟨?_, hl.agreeOn⟩
    cases he with
    | ok h => exact .ok (h.transfer (takes_upTo _))
    | error failure => exact .error failure

/-- Two stores that agree on what a program can see and differ in a name that it cannot, in the order of the bindings
and in a scope more. -/
theorem Confines.run_agree_hidden :
    let x : Object := ⟨3, .string "a"⟩
    let body : Block := .mk [.expression (.array [.ident ⟨"x", 1⟩, .ident ⟨"y", 1⟩] 1) 1] 1
    let f : Object := ⟨4, .function [⟨"y", 1⟩] body (.root 0)⟩
    let store : Store := ⟨#[[("x", x), ("f", f)], []], 5⟩
    let store' : Store := ⟨#[[("hidden", ⟨5, .string "b"⟩), ("f", f), ("x", x)], [("x", .null)]], 6⟩
    let region : Scope → Prop := (· = .root 0)
    let names : String → Prop := (· ∈ ["f", "x", "y"])
    let program : Program := [.expression (.call (.ident ⟨"f", 1⟩) [.ident ⟨"x", 1⟩] 1) 1]
    ∃ ids, Option.Rel (fun r r' => Program.EndsAlike (.upTo ids) r.1 r'.1 ∧ r.2.AgreeOn region names ids r'.2)
      (Program.run 20 (.root 0) program store) (Program.run 20 (.root 0) program store') := by
  intro x body f store store' region names program
  have hs : store.Sound := by
    refine ⟨by decide, fun id binding hm => ?_⟩
    match id, hm with
    | 0, hm =>
      obtain rfl | hm := List.mem_cons.mp hm
      · exact ⟨by decide, trivial⟩
      · obtain rfl := List.mem_singleton.mp hm
        exact ⟨by decide, trivial⟩
    | 1, hm => cases hm
    | _ + 2, hm => cases hm
  have hs' : store'.Sound := by
    refine ⟨by decide, fun id binding hm => ?_⟩
    match id, hm with
    | 0, hm =>
      obtain rfl | hm := List.mem_cons.mp hm
      · exact ⟨by decide, trivial⟩
      obtain rfl | hm := List.mem_cons.mp hm
      · exact ⟨by decide, trivial⟩
      · obtain rfl := List.mem_singleton.mp hm
        exact ⟨by decide, trivial⟩
    | 1, hm =>
      obtain rfl := List.mem_singleton.mp hm
      exact ⟨by decide, rfl⟩
    | _ + 2, hm => cases hm
  have hc : store.Confines region names := by
    refine ⟨fun scope outer hr ho => ?_, fun scope hr name hn object ho closure hm => ?_⟩
    · rw [show scope = .root 0 from hr] at ho
      cases ho
    rw [show scope = .root 0 from hr] at ho
    simp only [names, List.mem_cons, List.not_mem_nil, or_false] at hn
    obtain rfl | rfl | rfl := hn
    · cases ho
      obtain rfl := List.mem_singleton.mp hm
      exact ⟨rfl, by decide⟩
    · cases ho
      cases hm
    · cases ho
  have ha : store.AgreeOn region names (.shifted 5 6 (by decide) (by decide)) store' := by
    refine hs.agreeOn hs' rfl fun scope hr name hn => ?_
    rw [show scope = .root 0 from hr]
    simp only [names, List.mem_cons, List.not_mem_nil, or_false] at hn
    obtain rfl | rfl | rfl := hn <;> rfl
  exact ⟨_, hc.run_agree ha rfl (by decide) 20⟩

end Store

end TinyScript
