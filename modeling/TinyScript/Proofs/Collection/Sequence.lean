import Mathlib.Algebra.Group.Nat.Defs
import TinyScript.Proofs.Number.Whole
import TinyScript.Proofs.Soundness.Memory
import TinyScript.Text.Fx

/-! # Arrays as immutable sequences

An array is a sequence of objects. The builtin functions tell its length, its first and its last object, what is left
without the first one and what comes of putting an object behind the others, and indexing tells what stands where
(`Object.Sequence`): they agree with each other at all positions that a number can name, the ends and the empty array
among them. None of them changes an array. However many operations follow each other on an array and on what is made of
it, **it can still be got at, it still holds what it held, and no other object has come to be taken for it**
(`Session.Gave.immutable_sequence`).
-/

namespace TinyScript

open Evaluation

/-- A number that names a position. -/
def Object.At (position : Object) (i : Nat) : Prop :=
  ∃ number, position.value = .number number ∧ number.toIndex? = some i

section

variable [ByteHash]

/-- A builtin function gives an object for arguments and leaves a store, wherever and whenever it is called. -/
def Builtin.Gives (builtin : Builtin) (arguments : List Object) (before : Store) (object : Object) (after : Store) :
    Prop :=
  ∀ depth id line,
    Object.call (depth + 1) ⟨id, .builtin builtin⟩ arguments line before = some (.normal object, after)

/-- What is left of an array after `rest` was called a number of times, each time on what the last call gave. -/
inductive Builtin.Rests (array : Object) (before : Store) : Nat → Object → Store → Prop where
  | none : Rests array before 0 array before
  | more {count : Nat} {left next : Object} {middle after : Store} (h : Rests array before count left middle)
      (hr : Builtin.rest.Gives [left] middle next after) : Rests array before (count + 1) next after

/-- The builtin functions and indexing on an array that holds `elements`, and with an object to put behind them. -/
structure Object.Sequence (store : Store) (array object : Object) (elements : List Object) : Prop where
  first : Builtin.first.Gives [array] store (elements[0]?.getD .null) store
  last : Builtin.last.Gives [array] store (elements[elements.length - 1]?.getD .null) store
  len : ∃ number after, Builtin.len.Gives [array] store number after ∧
    number.value = .number (.ofNat elements.length) ∧ number.At elements.length ∧
    (Single.ofNat elements.length).position = some (elements.length * Single.unitsPerOne : Nat)
  index : ∀ i position, position.At i → array.index position = .ok (elements[i]?.getD .null)
  /-- A new array of the same objects and the one behind them. -/
  push : ∃ pushed after, Builtin.push.Gives [array, object] store pushed after ∧
    pushed.value = .array (elements ++ [object]) ∧
    (∀ i < elements.length, ∀ position, position.At i → pushed.index position = array.index position) ∧
    ∀ position, position.At elements.length → pushed.index position = .ok object
  rest_nil : elements = [] → Builtin.rest.Gives [array] store .null store
  /-- A new array of the objects from position `1` on. -/
  rest_cons : elements ≠ [] → ∃ left after, Builtin.rest.Gives [array] store left after ∧
    left.value = .array elements.tail ∧
    ∀ i position next, position.At i → next.At (i + 1) → left.index position = array.index next
  rests : ∃ empty after, Builtin.Rests array store elements.length empty after ∧ empty.value = .array [] ∧
    Builtin.rest.Gives [empty] after .null after
  /-- Every position of the array and the one behind them have a number. -/
  numbered : ∀ i ≤ elements.length, ∀ id, Object.At ⟨id, .number (.ofNat i)⟩ i

/-- What a program that works with arrays does: it calls builtin functions and indexes, and meanwhile looks up names and
makes numbers, strings and truth values. -/
inductive Operation (store : Store) (given : List Object) : Evaluation Object → Prop where
  | call {callee : Object} {builtin : Builtin} {arguments : List Object} (hc : callee.value = .builtin builtin)
      (ha : ∀ argument ∈ arguments, store.Reaches given argument) (depth line : Nat) :
      Operation store given (Object.call depth callee arguments line)
  | index {collection : Object} (hc : store.Reaches given collection) (position : Object) (line : Nat) :
      Operation store given (ofExcept line (collection.index position))
  | mention (scope : Scope) (name : Ident) : Operation store given (name.resolve scope)
  | make {produced : Produced} (hp : produced.Plain) (line : Nat) : Operation store given (produce line (.ok produced))

/-- The object that an evaluation completes with, if it completes with one. -/
def Completion.objects : Completion Object → List Object
  | .normal object => [object]
  | .returned object => [object]
  | .failed _ => []

/-- Operations one after another, each on what is bound or was given before, and what they have given, latest first. -/
inductive Store.Operates (before : Store) (given : List Object) : Store → List Object → Prop where
  | done : Operates before given before given
  | step {middle after : Store} {held : List Object} {evaluation : Evaluation Object} {completion : Completion Object}
      (h : Operates before given middle held) (ho : Operation middle held evaluation)
      (hr : evaluation middle = some (completion, after)) : Operates before given after (completion.objects ++ held)

variable {store before after : Store} {given held : List Object} {array object : Object}
  {elements others arguments : List Object} {builtin : Builtin} {i n : Nat}

/-! ## Builtin functions -/

namespace Builtin

/-- A builtin function that gives an object that there is leaves the store as it was. -/
theorem gives_existing (h : builtin.apply arguments = .ok (.existing object)) :
    builtin.Gives arguments store object store := by
  intro depth id line
  show produce line (builtin.apply arguments) store = _
  rw [h]
  rfl

/-- A builtin function that makes a value gives it the next identity. -/
theorem gives_fresh {value : Value} (h : builtin.apply arguments = .ok (.fresh value)) (store : Store) :
    builtin.Gives arguments store ⟨store.nextId, value⟩ ⟨store.bindings, store.nextId + 1⟩ := by
  intro depth id line
  show produce line (builtin.apply arguments) store = _
  rw [h]
  rfl

omit [ByteHash] in
/-- A builtin function works on the elements of an array. -/
theorem apply_array (ha : array.value = .array elements) (hn : others.length + 1 = builtin.arity) :
    builtin.apply (array :: others) = .ok (builtin.onArray elements others) := by
  unfold apply onFirst
  simp only [List.length_cons, if_pos hn, ha]

/-- Taking off the first object of an array that is not empty. -/
theorem exists_rest (ha : array.value = .array elements) (hne : elements ≠ []) (store : Store) :
    ∃ left after, Builtin.rest.Gives [array] store left after ∧ left.value = .array elements.tail := by
  have h : Builtin.rest.apply [array] = .ok (.fresh (.array elements.tail)) := by
    rw [apply_array ha rfl]
    cases elements with
    | nil => contradiction
    | cons first tail => rfl
  exact ⟨_, _, gives_fresh h store, rfl⟩

/-- There is no rest of nothing. -/
theorem rest_empty (ha : array.value = .array []) (store : Store) : Builtin.rest.Gives [array] store .null store :=
  gives_existing (apply_array ha rfl)

/-- **Calling `rest` again and again takes off one object after another.** -/
theorem exists_rests (ha : array.value = .array elements) (store : Store) (hn : n ≤ elements.length) :
    ∃ left after, Rests array store n left after ∧ left.value = .array (elements.drop n) := by
  induction n with
  | zero => exact ⟨array, store, .none, ha⟩
  | succ n ih =>
    obtain ⟨left, middle, hr, hl⟩ := ih (Nat.le_of_succ_le hn)
    have hne : elements.drop n ≠ [] := List.ne_nil_of_length_pos (by rw [List.length_drop]; omega)
    obtain ⟨next, after, hg, hv⟩ := exists_rest hl hne middle
    rw [List.tail_drop] at hv
    exact ⟨next, after, .more hr hg, hv⟩

end Builtin

/-! ## Positions -/

namespace Object

omit [ByteHash] in
/-- A whole number that a single holds exactly stands for the position of that number. -/
theorem at_ofNat (id : Nat) (h : n ≤ Single.maxIndex) : At ⟨id, .number (.ofNat n)⟩ n :=
  ⟨.ofNat n, rfl, Single.toIndex?_ofNat h⟩

/-- What stands at a position is what indexing gives. -/
theorem At.index_eq {position : Object} (h : position.At i) (ha : array.value = .array elements) :
    array.index position = .ok (elements[i]?.getD .null) := by
  obtain ⟨number, hp, hi⟩ := h
  unfold Object.index
  simp only [ha, hp, elementAt, hi, Option.bind_some]

/-- **The builtin functions and indexing agree on what an array holds.** -/
theorem sequence (ha : array.value = .array elements) (hn : elements.length < 2 ^ 24) (store : Store)
    (object : Object) : array.Sequence store object elements := by
  have hmax : ∀ i ≤ elements.length, i ≤ Single.maxIndex := fun i hi => Nat.le_trans hi (Nat.le_of_lt hn)
  have hindex : ∀ i position, Object.At position i → array.index position = .ok (elements[i]?.getD .null) :=
    fun i position hp => hp.index_eq ha
  have hpush : Builtin.push.apply [array, object] = .ok (.fresh (.array (elements ++ [object]))) :=
    Builtin.apply_array ha rfl
  exact {
    first := by
      refine Builtin.gives_existing ?_
      rw [Builtin.apply_array ha rfl, ← List.head?_eq_getElem?]
      rfl
    last := by
      refine Builtin.gives_existing ?_
      rw [Builtin.apply_array ha rfl, ← List.getLast?_eq_getElem?]
      rfl
    len := by
      have hl := hmax elements.length (Nat.le_refl _)
      have ht : Builtin.len.apply [array] = .ok (.number (.ofNat elements.length)) := Builtin.apply_array ha rfl
      have hg := Builtin.gives_fresh ht store
      exact ⟨_, _, hg, rfl, at_ofNat _ hl, Single.position_ofNat hl⟩
    index := hindex
    push := by
      refine ⟨_, _, Builtin.gives_fresh hpush store, rfl, fun i hi position hp => ?_, fun position hp => ?_⟩
      · rw [hindex i position hp, hp.index_eq rfl, List.getElem?_append_left hi]
      · rw [hp.index_eq rfl, List.getElem?_concat_length]
        rfl
    rest_nil := fun he => Builtin.rest_empty (he ▸ ha) store
    rest_cons := by
      intro hne
      obtain ⟨left, after, hg, hv⟩ := Builtin.exists_rest ha hne store
      refine ⟨left, after, hg, hv, fun i position next hp hq => ?_⟩
      rw [hp.index_eq hv, hindex (i + 1) next hq, List.getElem?_tail]
    rests := by
      obtain ⟨empty, after, hr, hv⟩ := Builtin.exists_rests ha store (Nat.le_refl elements.length)
      rw [List.drop_length] at hv
      exact ⟨empty, after, hr, hv, Builtin.rest_empty hv after⟩
    numbered := fun i hi id => at_ofNat id (hmax i hi) }

end Object

/-! ## Operations -/

omit [ByteHash] in
/-- What was bound or given can be got at where no scope that there was is changed and no less is given. -/
theorem Store.Reaches.of_untouched (h : before.Reaches given object) (hu : before.Untouched after)
    (hg : ∀ object ∈ given, object ∈ held) : after.Reaches held object := by
  induction h with
  | given hm => exact .given (hg _ hm)
  | @bound id binding hm =>
    -- what is bound is bound in a scope that there was before
    have hid : id < before.bindings.size := by
      refine Nat.lt_of_not_le fun hle => ?_
      rw [Store.locals, Array.getElem?_eq_none hle] at hm
      cases hm
    exact .bound (hu.locals_eq id hid ▸ hm)
  | held _ hh ih => exact .held ih hh
  | name _ hv hm ih => exact .name ih hv hm

namespace Operation

variable {evaluation : Evaluation Object}

/-- An operation writes to no scope. -/
theorem untouching (h : Operation store given evaluation) : evaluation.Untouching := by
  cases h with
  | @call callee builtin arguments hc _ depth line =>
    cases depth with
    | zero => exact untouching_exhausted
    | succ depth =>
      unfold Object.call
      rw [hc]
      exact untouching_produce line _
  | index hc position line => exact untouching_ofExcept line _
  | mention scope name => exact name.untouching_resolve scope
  | make hp line => exact untouching_produce line _

/-- **An operation keeps to every regime.** -/
theorem keeps {W : Type} {r : Regime W} {world : W} (h : Operation store given evaluation)
    (hr : ∀ object, store.Reaches given object → r.object world object) : r.Keeps world r.object evaluation := by
  cases h with
  | @call callee builtin arguments hc ha depth line =>
    cases depth with
    | zero => exact Regime.keeps_exhausted
    | succ depth =>
      unfold Object.call
      rw [hc]
      exact Regime.keeps_produce line fun _ he =>
        Regime.produced_of_drawn (Builtin.drawn_apply he) fun argument hm => hr argument (ha argument hm)
  | index hc position line => exact Regime.keeps_ofExcept line fun _ => Regime.object_of_index (hr _ hc)
  | mention scope name => exact Regime.keeps_resolve scope name
  | make hp line =>
    refine Regime.keeps_produce line fun produced he => ?_
    cases he
    exact Regime.produced_of_plain hp

end Operation

namespace Store.Operates

/-- What can be got at can still be got at after operations. -/
theorem reaches (h : before.Operates given after held) (hr : before.Reaches given object) :
    after.Reaches held object := by
  induction h with
  | done => exact hr
  | step _ ho he ih => exact ih.of_untouched (ho.untouching _ _ _ he) fun _ => List.mem_append_right _

/-- **Operations keep to every regime.** -/
theorem keeps {W : Type} {r : Regime W} {world : W} {session : Session}
    (h : session.store.Operates given after held) (hs : r.Session world given session) :
    ∃ next, r.later world next ∧ r.Session next held ⟨after, session.scope⟩ := by
  induction h with
  | done => exact ⟨world, r.refl world, hs⟩
  | @step middle after held evaluation completion _ ho he ih =>
    obtain ⟨between, hl, hm⟩ := ih
    obtain ⟨next, hl', ha, hc⟩ := ho.keeps (fun object => hm.reaches) middle completion after hm.store he
    have hn : r.Session next held ⟨after, session.scope⟩ := hm.advance hl' ha (r.scope_mono hl' hm.scope)
    refine ⟨next, r.trans hl hl', hn.give fun object ho => ?_⟩
    cases completion with
    | normal value =>
      obtain rfl := List.mem_singleton.mp ho
      exact hc
    | returned value =>
      obtain rfl := List.mem_singleton.mp ho
      exact hc
    | failed failure => cases ho

end Store.Operates

/-- **Arrays are immutable sequences**: whatever operations follow each other, an array that could be got at still can
be, whatever is the same object holds the same elements, and the builtin functions and indexing agree on them. -/
theorem Session.Gave.immutable_sequence {session : Session} (h : session.Gave given)
    (ha : session.store.Reaches given array) (hv : array.value = .array elements) (hn : elements.length < 2 ^ 24)
    (object : Object) (ho : session.store.Operates given after held) :
    after.Reaches held array ∧
      (∀ other, after.Reaches held other → other.same array → other.value = .array elements) ∧
        array.Sequence after object elements := by
  obtain ⟨memory, hm⟩ := Memory.regime.gave h
  obtain ⟨grown, -, hg⟩ := ho.keeps hm
  have hr : after.Reaches held array := ho.reaches ha
  refine ⟨hr, fun other hother hsame => ?_, Object.sequence hv hn after object⟩
  have heq : other = array := (hg.reaches hother).eq_of_id_eq (hg.reaches hr) (beq_iff_eq.mp hsame)
  rw [heq, hv]

end

/-- An array of a truth value and a string, and the array that holds it behind these. -/
theorem Session.Gave.immutable_sequence_nested :
    let program : Program := [.expression (.array [.boolean true 1, .string "x" 1] 1) 1]
    let elements : List Object := [.ofBool true, ⟨3, .string "x"⟩]
    ∃ array pushed later after, Session.fresh.run 20 program = some (.value array, later) ∧
      array.value = .array elements ∧ later.store.Operates [array] after [pushed, array] ∧
        pushed.value = .array (elements ++ [array]) ∧ after.Reaches [pushed, array] array ∧
          (∀ other, after.Reaches [pushed, array] other → other.same array → other.value = .array elements) ∧
            array.Sequence after array elements := by
  intro program elements
  let array : Object := ⟨4, .array elements⟩
  have hr : (Session.fresh.run 20 program).map Prod.fst = some (.value array) := rfl
  obtain ⟨⟨result, later⟩, hr, rfl⟩ := Option.map_eq_some_iff.mp hr
  have ha : later.store.Reaches [array] array := .given List.mem_cons_self
  have hc : Operation later.store [array] (Object.call 1 ⟨0, .builtin .push⟩ [array, array] 1) :=
    .call rfl (by simp [ha]) 1 1
  have ho : later.store.Operates [array] _ [⟨later.store.nextId, .array (elements ++ [array])⟩, array] :=
    .step .done hc rfl
  have hs := Session.Gave.immutable_sequence (.run .fresh hr) ha rfl (by decide) array ho
  exact ⟨array, _, later, _, hr, rfl, ho, rfl, hs⟩

end TinyScript
