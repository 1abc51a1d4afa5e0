import TinyScript.Proofs.Recoding.Objects

/-! # Operations on recoded operands

Operators, indexing and the builtin functions see the kinds, the contents and the identities of objects, and no code;
the store finds and binds objects without looking at them. Each gives for recoded operands what it gives for the
operands, recoded.
-/

namespace TinyScript

variable {r : Recoding}

/-- An operation on recoded operands gives its result recoded, or the same fault. -/
theorem UnaryOp.apply_recoded (op : UnaryOp) (operand : Object) :
    op.apply (operand.recoded r) = (op.apply operand).map (Produced.recoded r) := by
  obtain ⟨id, value⟩ := operand
  cases op with
  | not =>
    show Except.ok (Produced.truth !(value.recoded r).truthy) = _
    rw [Value.truthy_recoded]
    rfl
  | negate => cases value <;> rfl

theorem BinaryOp.onNumbers_recoded (op : BinaryOp) (x y : Single) :
    (op.onNumbers x y).map (Produced.recoded r) = op.onNumbers x y := by
  cases op <;> rfl

theorem BinaryOp.onStrings_recoded (op : BinaryOp) (s t : String) :
    (op.onStrings s t).map (Produced.recoded r) = op.onStrings s t := by
  cases op <;> rfl

/-- A map of code leaves identities as they are. -/
theorem BinaryOp.onIdentity_recoded (op : BinaryOp) (left right : Object) :
    op.onIdentity (left.recoded r) (right.recoded r) =
      (op.onIdentity left right).map (Produced.recoded r) := by
  have isTrue (object : Object) :
      (Object.ofBool true).same (object.recoded r) = (Object.ofBool true).same object :=
    Object.same_recoded (Object.ofBool true) object
  unfold BinaryOp.onIdentity
  simp only [Object.same_recoded, Object.kind_recoded, isTrue]
  cases op <;> rfl

/-- Operands that are not both numbers, nor both strings, are compared by kind and by identity. -/
theorem BinaryOp.apply_eq_of_mixed (op : BinaryOp) {left right : Object}
    (hn : ∀ x y, ¬(left.value = .number x ∧ right.value = .number y))
    (hs : ∀ s t, ¬(left.value = .string s ∧ right.value = .string t)) :
    op.apply left right =
      if left.kind = right.kind then op.onIdentity left right
      else .error (.typeMismatch left.kind op right.kind) := by
  unfold BinaryOp.apply
  split
  · next x y hl hr => exact absurd ⟨hl, hr⟩ (hn x y)
  · next s t hl hr => exact absurd ⟨hl, hr⟩ (hs s t)
  · rfl

theorem Value.recoded_eq_number {value : Value} {x : Single} (h : value.recoded r = .number x) :
    value = .number x := by
  cases value <;> cases h
  rfl

theorem Value.recoded_eq_string {value : Value} {text : String} (h : value.recoded r = .string text) :
    value = .string text := by
  cases value <;> cases h
  rfl

theorem BinaryOp.apply_recoded (op : BinaryOp) (left right : Object) :
    op.apply (left.recoded r) (right.recoded r) = (op.apply left right).map (Produced.recoded r) := by
  by_cases hn : ∃ x y, left.value = .number x ∧ right.value = .number y
  · obtain ⟨x, y, hl, hr⟩ := hn
    simp only [BinaryOp.apply, Object.value_recoded, hl, hr]
    exact (op.onNumbers_recoded x y).symm
  by_cases hs : ∃ s t, left.value = .string s ∧ right.value = .string t
  · obtain ⟨s, t, hl, hr⟩ := hs
    simp only [BinaryOp.apply, Object.value_recoded, hl, hr]
    exact (op.onStrings_recoded s t).symm
  rw [op.apply_eq_of_mixed (fun x y h => hn ⟨x, y, h⟩) fun s t h => hs ⟨s, t, h⟩, op.apply_eq_of_mixed]
  · rw [Object.kind_recoded, Object.kind_recoded, op.onIdentity_recoded]
    split <;> rfl
  · rintro x y ⟨hl, hr⟩
    rw [Object.value_recoded] at hl hr
    exact hn ⟨x, y, Value.recoded_eq_number hl, Value.recoded_eq_number hr⟩
  · rintro s t ⟨hl, hr⟩
    rw [Object.value_recoded] at hl hr
    exact hs ⟨s, t, Value.recoded_eq_string hl, Value.recoded_eq_string hr⟩

/-- No code is part of a key. -/
theorem Object.keyOrFault_recoded [ByteHash] (object : Object) :
    (object.recoded r).keyOrFault = object.keyOrFault := by
  unfold Object.keyOrFault
  rw [Object.value_recoded, Value.key?_recoded, Object.kind_recoded]

/-- Null is what is not there. -/
theorem Object.getD_null_recoded (object? : Option Object) :
    (object?.map (Object.recoded r)).getD .null = (object?.getD .null).recoded r := by
  cases object? <;> rfl

theorem Object.elementAt_recoded (elements : List Object) (position : Single) :
    Object.elementAt (Object.recodedAll r elements) position =
      (Object.elementAt elements position).recoded r := by
  unfold Object.elementAt
  rw [← Object.getD_null_recoded, Object.recodedAll_eq_map]
  cases position.toIndex? with
  | none => rfl
  | some n => exact congrArg (Option.getD · Object.null) List.getElem?_map

theorem Object.entryAt_recoded (entries : List (Key × Object × Object)) (key : Key) :
    Object.entryAt (Object.recodedEntries r entries) key = (Object.entryAt entries key).recoded r := by
  unfold Object.entryAt
  rw [← Object.getD_null_recoded, Object.recodedEntries_eq_map, Assoc.find?_mapValues, Option.map_map,
    Option.map_map]
  rfl

theorem Object.index_recoded [ByteHash] (collection position : Object) :
    (collection.recoded r).index (position.recoded r) =
      (collection.index position).map (Object.recoded r) := by
  obtain ⟨id, value⟩ := collection
  obtain ⟨at_, key⟩ := position
  cases value with
  | array elements =>
    cases key with
    | number n => exact congrArg Except.ok (Object.elementAt_recoded elements n)
    | _ => rfl
  | hash entries =>
    show ((Object.mk at_ key).recoded r).keyOrFault.map _ = ((Object.mk at_ key).keyOrFault.map _).map _
    rw [Object.keyOrFault_recoded]
    cases (Object.mk at_ key).keyOrFault with
    | error fault => rfl
    | ok found => exact congrArg Except.ok (Object.entryAt_recoded entries found)
  | _ => rfl

/-- Builtins move elements and look into none of them. -/
theorem Builtin.onArray_recoded (builtin : Builtin) (elements others : List Object) :
    builtin.onArray (Object.recodedAll r elements) (Object.recodedAll r others) =
      (builtin.onArray elements others).recoded r := by
  cases builtin with
  | len =>
    show Produced.number (.ofNat (Object.recodedAll r elements).length) = .number (.ofNat elements.length)
    rw [Object.recodedAll_eq_map, List.length_map]
  | first =>
    show Produced.existing ((Object.recodedAll r elements).head?.getD .null) = _
    rw [Object.recodedAll_eq_map, List.head?_map, Object.getD_null_recoded]
    rfl
  | last =>
    show Produced.existing ((Object.recodedAll r elements).getLast?.getD .null) = _
    rw [Object.recodedAll_eq_map, List.getLast?_map, Object.getD_null_recoded]
    rfl
  | rest => cases elements <;> rfl
  | push =>
    show Produced.fresh (.array (Object.recodedAll r elements ++ Object.recodedAll r others)) =
      .fresh (.array (Object.recodedAll r (elements ++ others)))
    simp only [Object.recodedAll_eq_map, List.map_append]

theorem Builtin.onFirst_recoded (builtin : Builtin) (subject : Object) (others : List Object) :
    builtin.onFirst (subject.recoded r) (Object.recodedAll r others) =
      (builtin.onFirst subject others).map (Produced.recoded r) := by
  obtain ⟨id, value⟩ := subject
  cases value with
  | array elements => exact congrArg Except.ok (builtin.onArray_recoded elements others)
  | _ => cases builtin <;> rfl

theorem Builtin.apply_recoded (builtin : Builtin) (arguments : List Object) :
    builtin.apply (Object.recodedAll r arguments) = (builtin.apply arguments).map (Produced.recoded r) := by
  cases arguments with
  | nil => rfl
  | cons subject others =>
    show (if (Object.recodedAll r (subject :: others)).length = builtin.arity then
        builtin.onFirst (subject.recoded r) (Object.recodedAll r others)
      else .error (.argumentCount builtin.arity (Object.recodedAll r (subject :: others)).length)) = _
    rw [builtin.onFirst_recoded, Object.recodedAll_eq_map, List.length_map]
    unfold Builtin.apply
    split <;> rfl

namespace Store

variable (store : Store)

theorem size_recoded : (store.recoded r).bindings.size = store.bindings.size :=
  Array.size_map

theorem locals_recoded (id : Nat) : (store.recoded r).locals id = (store.locals id).recoded r := by
  unfold locals
  show ((store.bindings.map (Bindings.recoded r))[id]?).getD [] = _
  rw [Array.getElem?_map]
  cases store.bindings[id]? <;> rfl

/-- Names are resolved through the same scopes. -/
theorem get?_recoded (scope : Scope) (name : String) :
    (store.recoded r).get? scope name = (store.get? scope name).map (Object.recoded r) := by
  induction scope with
  | root id =>
    unfold get?
    rw [locals_recoded]
    exact Assoc.find?_mapValues _ _ _
  | enclosed id outer ih =>
    have hl : Assoc.find? name ((store.recoded r).locals id) =
        (Assoc.find? name (store.locals id)).map (Object.recoded r) := by
      rw [locals_recoded]
      exact Assoc.find?_mapValues _ _ _
    unfold get?
    rw [hl]
    cases Assoc.find? name (store.locals id) with
    | none => exact ih
    | some object => rfl

/-- The map may be made before or after a binding. -/
theorem set_recoded (scope : Scope) (name : String) (object : Object) :
    (store.recoded r).set scope name (object.recoded r) = (store.set scope name object).recoded r := by
  refine congrArg (Store.mk · store.nextId) (Array.ext_getElem? fun i => ?_)
  show ((store.bindings.map (Bindings.recoded r)).modify scope.id _)[i]? =
    ((store.bindings.modify scope.id _).map (Bindings.recoded r))[i]?
  rw [Array.getElem?_modify, Array.getElem?_map, Array.getElem?_map, Array.getElem?_modify]
  by_cases h : scope.id = i
  · rw [if_pos h, if_pos h, Option.map_map, Option.map_map]
    refine congrArg (Option.map · store.bindings[i]?) (funext fun bindings => ?_)
    exact Assoc.insert_mapValues _ _ _ _
  · rw [if_neg h, if_neg h]

theorem setAll_recoded (scope : Scope) (bindings : List (String × Object)) :
    (store.recoded r).setAll scope (Bindings.recoded r bindings) =
      (store.setAll scope bindings).recoded r := by
  induction bindings generalizing store with
  | nil => rfl
  | cons binding rest ih =>
    obtain ⟨name, object⟩ := binding
    show ((store.recoded r).set scope name (object.recoded r)).setAll scope (Bindings.recoded r rest) = _
    rw [set_recoded]
    exact ih _

/-- The new scope has the same number and the same outer scopes. -/
theorem enclose_recoded (outer : Scope) :
    (store.recoded r).enclose outer = ((store.enclose outer).1, (store.enclose outer).2.recoded r) := by
  unfold enclose
  rw [size_recoded]
  refine congrArg (Prod.mk _) (congrArg (Store.mk · store.nextId) ?_)
  show (store.bindings.map (Bindings.recoded r)).push [] = (store.bindings.push []).map (Bindings.recoded r)
  rw [Array.map_push]
  rfl

end Store

end TinyScript
