import TinyScript.Evaluation.Collection
import TinyScript.Proofs.Layout.Operations
import TinyScript.Proofs.Matching.Objects

/-! # Operations on like operands

Operators, indexing and the builtin functions see of their operands the kinds, the contents, and which are the
same object. So they give like results for like operands, or the same fault. Stores are alike where the names
of the matching are bound to like objects in scopes that stand for each other; then they stay alike when like
things are done to both.
-/

namespace TinyScript

/-- Like results, or the same fault. -/
inductive Fault.AlikeOr {α β : Type} (alike : α → β → Prop) : Except Fault α → Except Fault β → Prop where
  | ok {value : α} {value' : β} (h : alike value value') : Fault.AlikeOr alike (.ok value) (.ok value')
  | error (fault : Fault) : Fault.AlikeOr alike (.error fault) (.error fault)

/-- Like objects, or like values for new ones. -/
inductive Produced.Alike (m : Matching) : Produced → Produced → Prop where
  | existing {object object' : Object} (h : object.Alike m object') :
      Produced.Alike m (.existing object) (.existing object')
  | fresh {value value' : Value} (h : value.Alike m value') : Produced.Alike m (.fresh value) (.fresh value')

variable {m : Matching}

theorem Produced.Alike.truth (value : Bool) : (Produced.truth value).Alike m (Produced.truth value) :=
  .existing (Object.alike_ofBool value)

theorem Produced.Alike.number (value : Single) : (Produced.number value).Alike m (Produced.number value) :=
  .fresh (.number value)

theorem UnaryOp.alike_apply (op : UnaryOp) {operand operand' : Object} (h : operand.Alike m operand') :
    Fault.AlikeOr (Produced.Alike m) (op.apply operand) (op.apply operand') := by
  obtain @⟨id, id', value, value', _, h⟩ := h
  cases op with
  | not =>
    show Fault.AlikeOr _ (.ok (Produced.truth !value.truthy)) (.ok (Produced.truth !value'.truthy))
    rw [h.truthy_eq]
    exact .ok (.truth _)
  | negate =>
    cases h with
    | number n => exact .ok (.number _)
    | _ => exact .error _

namespace BinaryOp

theorem alike_onNumbers (op : BinaryOp) (x y : Single) :
    Fault.AlikeOr (Produced.Alike m) (op.onNumbers x y) (op.onNumbers x y) := by
  cases op with
  | add | sub | mul | div => exact .ok (.number _)
  | and | or => exact .error _
  | _ => exact .ok (.truth _)

theorem alike_onStrings (op : BinaryOp) (s t : String) :
    Fault.AlikeOr (Produced.Alike m) (op.onStrings s t) (op.onStrings s t) := by
  cases op with
  | add => exact .ok (.fresh (.string _))
  | equal | notEqual => exact .ok (.truth _)
  | _ => exact .error _

/-- Identities are equal on one side exactly when they are on the other. -/
theorem alike_onIdentity (op : BinaryOp) {left left' right right' : Object} (hl : left.Alike m left')
    (hr : right.Alike m right') :
    Fault.AlikeOr (Produced.Alike m) (op.onIdentity left right) (op.onIdentity left' right') := by
  have ht := Object.alike_ofBool (m := m) true
  unfold BinaryOp.onIdentity
  simp only [hl.same_eq hr, ht.same_eq hl, ht.same_eq hr, hl.kind_eq, hr.kind_eq]
  cases op with
  | equal | notEqual | and | or => exact .ok (.truth _)
  | _ => exact .error _

/-- Operands that are alike give the same fault or results that are alike. -/
theorem alike_apply (op : BinaryOp) {left left' right right' : Object} (hl : left.Alike m left')
    (hr : right.Alike m right') :
    Fault.AlikeOr (Produced.Alike m) (op.apply left right) (op.apply left' right') := by
  have mixed : Fault.AlikeOr (Produced.Alike m)
      (if left.kind = right.kind then op.onIdentity left right
        else .error (.typeMismatch left.kind op right.kind))
      (if left'.kind = right'.kind then op.onIdentity left' right'
        else .error (.typeMismatch left'.kind op right'.kind)) := by
    rw [hl.kind_eq, hr.kind_eq]
    split
    · exact op.alike_onIdentity hl hr
    · exact .error _
  obtain ⟨_, hl⟩ := hl
  obtain ⟨_, hr⟩ := hr
  cases hl with
  | number x =>
    cases hr with
    | number y => exact op.alike_onNumbers x y
    | _ => exact mixed
  | string s =>
    cases hr with
    | string t => exact op.alike_onStrings s t
    | _ => exact mixed
  | _ => exact mixed

end BinaryOp

theorem Object.alike_keyOrFault [ByteHash] {object object' : Object} (h : object.Alike m object') :
    object.keyOrFault = object'.keyOrFault := by
  unfold Object.keyOrFault
  rw [h.value.key?_eq, h.kind_eq]

theorem Object.alike_elementAt {elements elements' : List Object}
    (h : Object.AlikeAll m elements elements') (position : Single) :
    (Object.elementAt elements position).Alike m (Object.elementAt elements' position) := by
  refine Object.alike_getD_null ?_
  cases position.toIndex? with
  | none => exact .none
  | some i => exact h.getElem? i

theorem Object.alike_entryAt {entries entries' : List (Key × Object × Object)}
    (h : Object.AlikeEntries m entries entries') (key : Key) :
    (Object.entryAt entries key).Alike m (Object.entryAt entries' key) := by
  refine Object.alike_getD_null ?_
  have hf := h.find? key
  cases hf' : Assoc.find? key entries <;> cases hf'' : Assoc.find? key entries' <;> rw [hf', hf''] at hf
  · exact .none
  · cases hf
  · cases hf
  · cases hf with
    | some hv => exact .some hv.2

/-- Positions that are alike lead to the same place. -/
theorem Object.alike_index [ByteHash] {collection collection' position position' : Object}
    (hc : collection.Alike m collection') (hp : position.Alike m position') :
    Fault.AlikeOr (Object.Alike m) (collection.index position) (collection'.index position') := by
  have hk := Object.alike_keyOrFault hp
  obtain ⟨_, hc⟩ := hc
  cases hc with
  | array he =>
    obtain ⟨_, hp⟩ := hp
    cases hp with
    | number n => exact .ok (Object.alike_elementAt he n)
    | _ => exact .error _
  | hash he =>
    unfold Object.index
    rw [hk]
    cases position'.keyOrFault with
    | error fault => exact .error fault
    | ok key => exact .ok (Object.alike_entryAt he key)
  | _ => exact .error _

namespace Builtin

variable {elements elements' others others' : List Object}

/-- A builtin puts into an array what it was given, and takes out what is in it. -/
theorem alike_onArray (builtin : Builtin) (he : Object.AlikeAll m elements elements')
    (ho : Object.AlikeAll m others others') :
    (builtin.onArray elements others).Alike m (builtin.onArray elements' others') := by
  cases builtin with
  | len =>
    unfold onArray
    rw [he.length_eq]
    exact .number _
  | first =>
    refine .existing (Object.alike_getD_null ?_)
    rw [List.head?_eq_getElem?, List.head?_eq_getElem?]
    exact he.getElem? 0
  | last =>
    refine .existing (Object.alike_getD_null ?_)
    rw [List.getLast?_eq_getElem?, List.getLast?_eq_getElem?, he.length_eq]
    exact he.getElem? _
  | rest =>
    cases he with
    | nil => exact .existing Object.alike_null
    | cons _ ht => exact .fresh (.array ht)
  | push => exact .fresh (.array (he.append ho))

theorem alike_onFirst (builtin : Builtin) {subject subject' : Object} (hs : subject.Alike m subject')
    (ho : Object.AlikeAll m others others') :
    Fault.AlikeOr (Produced.Alike m) (builtin.onFirst subject others) (builtin.onFirst subject' others') := by
  obtain ⟨_, hs⟩ := hs
  cases hs with
  | array he => exact .ok (builtin.alike_onArray he ho)
  | string text =>
    cases builtin with
    | len => exact .ok (.number _)
    | _ => exact .error _
  | _ => cases builtin <;> exact .error _

theorem alike_apply (builtin : Builtin) {arguments arguments' : List Object}
    (h : Object.AlikeAll m arguments arguments') :
    Fault.AlikeOr (Produced.Alike m) (builtin.apply arguments) (builtin.apply arguments') := by
  have hl := h.length_eq
  cases h with
  | nil => exact .error _
  | cons hs ho =>
    simp only [apply, hl]
    split
    · exact builtin.alike_onFirst hs ho
    · exact .error _

end Builtin

/-! ## Stores -/

/-- Stores in which the names of a matching are bound to like objects, scope by scope. Identities and scopes
that are still to come stand for each other in their order. -/
structure Store.Alike (m : Matching) (store store' : Store) : Prop where
  nextIds : ∀ n, m.objects.relates (store.nextId + n) (store'.nextId + n)
  nextScopes : ∀ n, m.scopes.relates (store.bindings.size + n) (store'.bindings.size + n)
  bound : ∀ {id id'}, m.scopes.relates id id' → ∀ name, m.names name →
    Option.Rel (Object.Alike m) (Assoc.find? name (store.locals id)) (Assoc.find? name (store'.locals id'))

namespace Store.Alike

variable {store store' : Store} {scope scope' : Scope} {name : String}

/-- A scope is there if its partner is. -/
theorem size_le_iff (h : store.Alike m store') {id id' : Nat} (hr : m.scopes.relates id id') :
    store.bindings.size ≤ id ↔ store'.bindings.size ≤ id' := by
  constructor
  · intro hid
    obtain ⟨n, rfl⟩ := Nat.exists_eq_add_of_le hid
    have he := (m.scopes.eq_iff hr (h.nextScopes n)).mp rfl
    exact he ▸ Nat.le_add_right _ n
  · intro hid
    obtain ⟨n, rfl⟩ := Nat.exists_eq_add_of_le hid
    have he := (m.scopes.eq_iff hr (h.nextScopes n)).mpr rfl
    exact he ▸ Nat.le_add_right _ n

/-- Both look-ups climb the same number of scopes. -/
theorem get? (h : store.Alike m store') (hs : scope.Alike m scope') (hn : m.names name) :
    Option.Rel (Object.Alike m) (store.get? scope name) (store'.get? scope' name) := by
  induction hs with
  | root hr => exact h.bound hr name hn
  | @enclosed id id' outer outer' hr _ ih =>
    have hb := h.bound hr name hn
    unfold Store.get?
    cases hf : Assoc.find? name (store.locals id) <;> cases hf' : Assoc.find? name (store'.locals id') <;>
      rw [hf, hf'] at hb
    · exact ih
    · cases hb
    · cases hb
    · exact hb

/-- What a scope binds after a name has been bound in it. -/
theorem find?_locals_set {store : Store} {scope : Scope} (hid : scope.id < store.bindings.size)
    (name other : String) (object : Object) :
    Assoc.find? other ((store.set scope name object).locals scope.id) =
      if other = name then some object else Assoc.find? other (store.locals scope.id) := by
  rw [Store.locals_set_self hid]
  split
  · next he => rw [he, Assoc.find?_insert_self]
  · next he => rw [Assoc.find?_insert_of_ne _ _ he]

/-- Binding in a scope that is not there changes nothing. -/
theorem locals_set_of_size_le {store : Store} {scope : Scope} (hid : store.bindings.size ≤ scope.id)
    (name : String) (object : Object) (id : Nat) :
    (store.set scope name object).locals id = store.locals id := by
  unfold Store.locals Store.set
  rw [Array.getElem?_modify]
  split
  · next he =>
    rw [← he, Array.getElem?_eq_none hid]
    rfl
  · rfl

/-- The binding is made in related scopes, and in no others. -/
theorem set (h : store.Alike m store') (hs : scope.Alike m scope') (name : String) {object object' : Object}
    (ho : object.Alike m object') :
    (store.set scope name object).Alike m (store'.set scope' name object') := by
  have hsize : (store.set scope name object).bindings.size = store.bindings.size := Array.size_modify
  have hsize' : (store'.set scope' name object').bindings.size = store'.bindings.size := Array.size_modify
  refine ⟨h.nextIds, fun n => by rw [hsize, hsize']; exact h.nextScopes n, fun {id id'} hr other hn => ?_⟩
  by_cases hid : store.bindings.size ≤ scope.id
  · rw [locals_set_of_size_le hid, locals_set_of_size_le ((h.size_le_iff hs.id).mp hid)]
    exact h.bound hr other hn
  by_cases he : id = scope.id
  · have he' : id' = scope'.id := (m.scopes.eq_iff hr hs.id).mp he
    subst he he'
    rw [find?_locals_set (Nat.lt_of_not_le hid),
      find?_locals_set (Nat.lt_of_not_le fun hid' => hid ((h.size_le_iff hs.id).mpr hid'))]
    split
    · exact .some ho
    · exact h.bound hr other hn
  · have he' : id' ≠ scope'.id := fun he' => he ((m.scopes.eq_iff hr hs.id).mpr he')
    rw [Store.locals_set_of_ne he, Store.locals_set_of_ne he']
    exact h.bound hr other hn

/-- Binding names to like objects keeps stores alike. -/
theorem setAll (h : store.Alike m store') (hs : scope.Alike m scope') (names : List String)
    {objects objects' : List Object} (ho : Object.AlikeAll m objects objects') :
    (store.setAll scope (names.zip objects)).Alike m (store'.setAll scope' (names.zip objects')) := by
  induction names generalizing store store' objects objects' with
  | nil => exact h
  | cons name names ih =>
    cases ho with
    | nil => exact h
    | cons ho ht => exact ih (h.set hs name ho) ht

/-- The next identities of like stores are related, and the stores stay alike. -/
theorem allocate (h : store.Alike m store') {value value' : Value} (hv : value.Alike m value') :
    (store.allocate value).1.Alike m (store'.allocate value').1 ∧
      (store.allocate value).2.Alike m (store'.allocate value').2 := by
  refine ⟨.mk (h.nextIds 0) hv, fun n => ?_, h.nextScopes, h.bound⟩
  have hn := h.nextIds (1 + n)
  rwa [← Nat.add_assoc, ← Nat.add_assoc] at hn

/-- Scopes opened within like scopes are alike, and nothing is bound in them. -/
theorem enclose (h : store.Alike m store') (hs : scope.Alike m scope') :
    (store.enclose scope).1.Alike m (store'.enclose scope').1 ∧
      (store.enclose scope).2.Alike m (store'.enclose scope').2 := by
  refine ⟨.enclosed (h.nextScopes 0) hs, h.nextIds, fun n => ?_, fun {id id'} hr name hn => ?_⟩
  · have hn := h.nextScopes (1 + n)
    rw [← Nat.add_assoc, ← Nat.add_assoc] at hn
    unfold Store.enclose
    rw [Array.size_push, Array.size_push]
    exact hn
  · rw [Store.locals_enclose, Store.locals_enclose]
    exact h.bound hr name hn

end Store.Alike

end TinyScript
