import TinyScript.Evaluation.Collection
import TinyScript.Evaluation.Completion

/-! # What objects are made of

Operations make objects in few ways. An operator gives a new number or string or the object of a truth value
(`Produced.Plain`). Indexing gives null or what an array or a hash holds, and a builtin function may give an array of
its arguments and of what they hold besides (`Produced.Drawn`). A name stands for what some scope binds, and binding a
name brings in nothing but what it is bound to. What is to be known of all objects that a program meets is shown along
these ways.
-/

namespace TinyScript

/-- A result that holds no other objects: a new number or string, or the object of a truth value. -/
inductive Produced.Plain : Produced → Prop where
  | truth (value : Bool) : Plain (.truth value)
  | number (value : Single) : Plain (.number value)
  | string (text : String) : Plain (.fresh (.string text))

/-- What can be taken out of an array or a hash. -/
inductive Object.Holds : Object → Object → Prop where
  | element {array object : Object} {elements : List Object} (hv : array.value = .array elements)
      (hm : object ∈ elements) : Holds array object
  | entry {hash : Object} {entries : List (Key × Object × Object)} {entry : Key × Object × Object}
      (hv : hash.value = .hash entries) (hm : entry ∈ entries) : Holds hash entry.2.2

/-- A result that is drawn from arguments: a number, null, what one of them holds, or an array of such objects and of
arguments themselves. -/
inductive Produced.Drawn (arguments : List Object) : Produced → Prop where
  | number (value : Single) : Drawn arguments (.number value)
  | null : Drawn arguments (.existing .null)
  | held {argument object : Object} (ha : argument ∈ arguments) (h : argument.Holds object) :
      Drawn arguments (.existing object)
  | array {objects : List Object}
      (h : ∀ object ∈ objects, object ∈ arguments ∨ ∃ argument ∈ arguments, argument.Holds object) :
      Drawn arguments (.fresh (.array objects))

variable {produced : Produced}

/-! ## Operators -/

/-- A prefix operator gives a number or a truth value. -/
theorem UnaryOp.plain_apply {op : UnaryOp} {operand : Object} (h : op.apply operand = .ok produced) :
    produced.Plain := by
  unfold UnaryOp.apply at h
  split at h <;> cases h
  · exact .truth _
  · exact .number _

namespace BinaryOp

variable {op : BinaryOp}

theorem plain_onNumbers {x y : Single} (h : op.onNumbers x y = .ok produced) : produced.Plain := by
  cases op <;> cases h <;> first | exact .number _ | exact .truth _

theorem plain_onStrings {s t : String} (h : op.onStrings s t = .ok produced) : produced.Plain := by
  cases op <;> cases h <;> first | exact .string _ | exact .truth _

theorem plain_onIdentity {left right : Object} (h : op.onIdentity left right = .ok produced) : produced.Plain := by
  cases op <;> cases h <;> exact .truth _

/-- **Operators give numbers, strings and truth values.** -/
theorem plain_apply {left right : Object} (h : op.apply left right = .ok produced) : produced.Plain := by
  unfold BinaryOp.apply at h
  split at h
  · exact plain_onNumbers h
  · exact plain_onStrings h
  · split at h
    · exact plain_onIdentity h
    · cases h

end BinaryOp

/-! ## Arrays and hashes -/

/-- What is found is there. -/
theorem Assoc.mem_of_find? {κ ν : Type} [DecidableEq κ] {key : κ} {value : ν} {pairs : List (κ × ν)}
    (h : find? key pairs = some value) : (key, value) ∈ pairs := by
  induction pairs with
  | nil => cases h
  | cons pair pairs ih =>
    obtain ⟨k, v⟩ := pair
    by_cases hk : k = key
    · subst hk
      simp only [find?, if_true, Option.some.injEq] at h
      subst h
      exact List.mem_cons_self
    · simp only [find?, if_neg hk] at h
      exact List.mem_cons_of_mem _ (ih h)

/-- After a pair was written there is that pair, and else what there was before. -/
theorem Assoc.mem_insert {κ ν : Type} [DecidableEq κ] {key : κ} {value : ν} {pairs : List (κ × ν)}
    {pair : κ × ν} (h : pair ∈ insert key value pairs) : pair = (key, value) ∨ pair ∈ pairs := by
  induction pairs with
  | nil => exact .inl (List.mem_singleton.mp h)
  | cons first pairs ih =>
    obtain ⟨k, v⟩ := first
    by_cases hk : k = key
    · simp only [insert, if_pos hk] at h
      obtain h | h := List.mem_cons.mp h
      · exact .inl h
      · exact .inr (List.mem_cons_of_mem _ h)
    · simp only [insert, if_neg hk] at h
      obtain h | h := List.mem_cons.mp h
      · exact .inr (h ▸ List.mem_cons_self)
      · obtain h | h := ih h
        · exact .inl h
        · exact .inr (List.mem_cons_of_mem _ h)

/-- What may be missing is null or there. -/
theorem Object.getD_null_cases (object? : Option Object) :
    object?.getD .null = .null ∨ object? = some (object?.getD .null) := by
  cases object? with
  | none => exact .inl rfl
  | some object => exact .inr rfl

/-- **Indexing gives null or what is held.** -/
theorem Object.holds_of_index [ByteHash] {collection position object : Object} (h : collection.index position = .ok object) :
    object = .null ∨ collection.Holds object := by
  unfold Object.index at h
  split at h
  · next elements n he _ =>
    cases h
    obtain hn | hs := getD_null_cases (n.toIndex?.bind (elements[·]?))
    · exact .inl hn
    · obtain ⟨i, _, hi⟩ := Option.bind_eq_some_iff.mp hs
      exact .inr (.element he (List.mem_of_getElem? hi))
  · next entries he =>
    cases hk : position.keyOrFault with
    | error fault => rw [hk] at h; cases h
    | ok key =>
      rw [hk] at h
      cases h
      obtain hn | hs := getD_null_cases ((Assoc.find? key entries).map Prod.snd)
      · exact .inl hn
      · obtain ⟨entry, hf, he'⟩ := Option.map_eq_some_iff.mp hs
        refine .inr ?_
        rw [Object.entryAt, ← he']
        exact .entry he (Assoc.mem_of_find? hf)
  · cases h

/-- An object that is not at fault as a key gives one. -/
theorem Object.keyOrFault_eq_ok [ByteHash] {object : Object} {key : Key} (h : object.keyOrFault = .ok key) :
    object.value.key? = some key := by
  unfold Object.keyOrFault at h
  split at h
  · next found hf =>
    cases h
    exact hf
  · cases h

namespace Builtin

variable {builtin : Builtin} {arguments : List Object}

theorem drawn_getD_null {object? : Option Object}
    (h : ∀ object ∈ object?, Produced.Drawn arguments (.existing object)) :
    Produced.Drawn arguments (.existing (object?.getD .null)) := by
  cases object? with
  | none => exact .null
  | some object => exact h object rfl

/-- What a builtin function gives of an array is one of its elements, a new array of them and of the arguments behind
it, a number or null. -/
theorem drawn_onArray {array : Object} {elements others : List Object} (he : array.value = .array elements)
    (ha : arguments = array :: others) : (builtin.onArray elements others).Drawn arguments := by
  subst ha
  cases builtin with
  | len => exact .number _
  | first =>
    exact drawn_getD_null fun object hm => .held List.mem_cons_self (.element he (List.mem_of_mem_head? hm))
  | last =>
    exact drawn_getD_null fun object hm => .held List.mem_cons_self (.element he (List.mem_of_mem_getLast? hm))
  | rest =>
    cases elements with
    | nil => exact .null
    | cons first tail =>
      exact .array fun object hm => .inr ⟨array, List.mem_cons_self, .element he (List.mem_cons_of_mem _ hm)⟩
  | push =>
    refine .array fun object hm => ?_
    obtain hm | hm := List.mem_append.mp hm
    · exact .inr ⟨array, List.mem_cons_self, .element he hm⟩
    · exact .inl (List.mem_cons_of_mem _ hm)

/-- **What a builtin function gives is drawn from its arguments.** -/
theorem drawn_apply (h : builtin.apply arguments = .ok produced) : produced.Drawn arguments := by
  unfold Builtin.apply at h
  split at h
  · split at h
    · unfold Builtin.onFirst at h
      split at h
      · next elements he _ =>
        cases h
        exact drawn_onArray he rfl
      · cases h
        exact .number _
      · cases h
      · cases h
    · cases h
  · cases h

end Builtin

/-! ## Names -/

namespace Store

variable {store : Store} {scope : Scope} {name : String} {object : Object}

/-- A name stands for what some scope binds it to. -/
theorem exists_mem_of_get? (h : store.get? scope name = some object) : ∃ id, (name, object) ∈ store.locals id := by
  induction scope with
  | root id => exact ⟨id, Assoc.mem_of_find? h⟩
  | enclosed id outer ih =>
    unfold Store.get? at h
    split at h
    · next found hf =>
      cases h
      exact ⟨id, Assoc.mem_of_find? hf⟩
    · exact ih h

/-- Nothing but the object that is bound comes in. -/
theorem mem_locals_set {id : Nat} {binding : String × Object}
    (h : binding ∈ (store.set scope name object).locals id) :
    binding = (name, object) ∨ binding ∈ store.locals id := by
  unfold Store.locals Store.set at h
  rw [Array.getElem?_modify] at h
  split at h
  · unfold Store.locals
    cases hl : store.bindings[id]? with
    | none => rw [hl] at h; cases h
    | some locals =>
      rw [hl] at h
      exact Assoc.mem_insert h
  · exact .inr h

/-- Nothing but the objects that are bound comes in. -/
theorem mem_locals_setAll {id : Nat} {bindings : List (String × Object)} {binding : String × Object}
    (h : binding ∈ (store.setAll scope bindings).locals id) : binding ∈ bindings ∨ binding ∈ store.locals id := by
  induction bindings generalizing store with
  | nil => exact .inr h
  | cons first rest ih =>
    obtain hm | hm := ih h
    · exact .inl (List.mem_cons_of_mem _ hm)
    · obtain rfl | hm := mem_locals_set hm
      · exact .inl List.mem_cons_self
      · exact .inr hm

end Store

end TinyScript
