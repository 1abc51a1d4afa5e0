import TinyScript.Proofs.Soundness.Graph

/-! # Scopes behave as their history says

Scopes are opened, alone or within others, and names are set in them, in whatever order: several scopes may share the
one around them, and that may be written to after they were opened. A **history** is all that was done to the scopes of
a store, latest first (`Store.History`). It says what every name stands for: **what the name was last set to in the
nearest scope, outward, in which it was ever set** (`Store.History.remembers`). Nothing that is done to other scopes or
to other names shows.

The law is first one about a single scope, by induction on the history (`Store.History.keeps`): no two scopes have one
number, so that a scope finds what was last set in it and nothing else. Each thing that is done to scopes keeps this
(`Store.Keeps.push`, `Store.Keeps.set`).
-/

namespace TinyScript

/-- A scope and the scopes around it, innermost first. -/
def Scope.around : Scope → List Scope
  | .root id => [.root id]
  | .enclosed id outer => .enclosed id outer :: outer.around

/-- What is done to scopes. -/
inductive Scope.Event where
  | opened (scope : Scope)
  | set (scope : Scope) (name : String) (object : Object)

/-- Stores with all that was done to their scopes, latest first. A scope is opened by itself or within one that there
is, and names are set in scopes that there are; objects may be made at any time. -/
inductive Store.History : List Scope.Event → Store → Prop where
  | empty : Store.History [] .empty
  | openRoot {events : List Scope.Event} {store : Store} (h : Store.History events store) :
      Store.History (.opened store.openRoot.1 :: events) store.openRoot.2
  | enclose {events : List Scope.Event} {store : Store} {outer : Scope} (h : Store.History events store)
      (ho : .opened outer ∈ events) :
      Store.History (.opened (store.enclose outer).1 :: events) (store.enclose outer).2
  | set {events : List Scope.Event} {store : Store} {scope : Scope} (h : Store.History events store)
      (ho : .opened scope ∈ events) (name : String) (object : Object) :
      Store.History (.set scope name object :: events) (store.set scope name object)
  | allocate {events : List Scope.Event} {store : Store} (h : Store.History events store) (value : Value) :
      Store.History events (store.allocate value).2

namespace Scope

/-- A name was never set in a scope. -/
def Unset (events : List Event) (scope : Scope) (name : String) : Prop :=
  ∀ object, .set scope name object ∉ events

/-- What a name was last set to in a scope. -/
def LastSet (events : List Event) (scope : Scope) (name : String) (object : Object) : Prop :=
  ∃ later earlier, events = later ++ .set scope name object :: earlier ∧ Unset later scope name

/-- A scope of those around another, nearer than which a name was never set. -/
def Nearest (events : List Event) (scope : Scope) (name : String) (near : Scope) : Prop :=
  ∃ inner outer, scope.around = inner ++ near :: outer ∧ ∀ between ∈ inner, Unset events between name

variable {events : List Event} {event : Event} {scope : Scope} {name : String} {object : Object}

/-- The numbers of the scopes around a scope make up its chain. -/
theorem chain_eq_map_around (scope : Scope) : scope.chain = scope.around.map Scope.id := by
  induction scope with
  | root id => rfl
  | enclosed id outer ih => simp [chain, around, ih, Scope.id]

/-- A name is unset as long as no event binds it in this scope. -/
theorem unset_cons_iff : Unset (event :: events) scope name ↔
    (∀ object, event ≠ .set scope name object) ∧ Unset events scope name := by
  simp only [Unset, List.mem_cons, not_or, forall_and, ne_eq, eq_comm]

/-- The latest setting hides those before it, and anything else that is done hides none. -/
theorem lastSet_cons_iff : LastSet (event :: events) scope name object ↔
    event = .set scope name object ∨
      (∀ other, event ≠ .set scope name other) ∧ LastSet events scope name object := by
  constructor
  · rintro ⟨later, earlier, he, hu⟩
    cases later with
    | nil =>
      cases he
      exact .inl rfl
    | cons first later =>
      cases he
      obtain ⟨hne, hu⟩ := unset_cons_iff.mp hu
      exact .inr ⟨hne, later, earlier, rfl, hu⟩
  · rintro (rfl | ⟨hne, later, earlier, rfl, hu⟩)
    · exact ⟨[], events, rfl, fun _ => List.not_mem_nil⟩
    · exact ⟨event :: later, earlier, rfl, unset_cons_iff.mpr ⟨hne, hu⟩⟩

/-- What was ever set was set last some time. -/
theorem exists_lastSet_iff : (∃ object, LastSet events scope name object) ↔ ¬ Unset events scope name := by
  induction events with
  | nil => simp [LastSet, Unset]
  | cons event events ih =>
    rw [unset_cons_iff]
    by_cases he : ∃ object, event = .set scope name object
    · obtain ⟨object, rfl⟩ := he
      simp [lastSet_cons_iff]
    · simp only [not_exists] at he
      simp [lastSet_cons_iff, he, ih]

end Scope

/-- What can be said of a name in a scope of a store from the history alone. -/
structure Store.Remembers (events : List Scope.Event) (store : Store) (scope : Scope) (name : String) : Prop where
  /-- The scope itself has the name if it was ever set there. -/
  hasLocal_iff : store.hasLocal scope name = true ↔ ∃ object, .set scope name object ∈ events
  /-- The name stands for what it was last set to in the nearest scope where it was ever set. -/
  get?_eq_some_iff : ∀ object, store.get? scope name = some object ↔
    ∃ near, scope.Nearest events name near ∧ near.LastSet events name object
  /-- It stands for nothing if it was never set in any scope around. -/
  get?_eq_none_iff : store.get? scope name = none ↔ ∀ around ∈ scope.around, around.Unset events name
  /-- Setting another name, or the name in a scope that is not around, changes nothing. -/
  get?_set_of_apart : ∀ other name' object, .opened other ∈ events → other ∉ scope.around ∨ name' ≠ name →
    (store.set other name' object).get? scope name = store.get? scope name
  /-- Setting the name in a scope around is seen at once, unless a nearer one has the name. -/
  get?_set_of_nearest : ∀ near object, scope.Nearest events name near →
    (store.set near name object).get? scope name = some object

variable {events : List Scope.Event} {store : Store} {scope other : Scope} {name : String} {object : Object}

namespace Store

/-- Looking a name up goes outward to the nearest scope that binds it. -/
theorem get?_eq_findSome?_around (store : Store) (scope : Scope) (name : String) :
    store.get? scope name = scope.around.findSome? fun around => Assoc.find? name (store.locals around.id) := by
  rw [get?_eq_findSome?, Scope.chain_eq_map_around, List.findSome?_map]
  rfl

/-- Looking a name up sees nothing but what the scopes around bind it to. -/
theorem get?_congr {after : Store} (h : ∀ around ∈ scope.around,
      Assoc.find? name (after.locals around.id) = Assoc.find? name (store.locals around.id)) :
    after.get? scope name = store.get? scope name := by
  induction scope with
  | root id => exact h _ (List.mem_singleton_self _)
  | enclosed id outer ih =>
    have hid := h _ List.mem_cons_self
    simp only [Scope.id] at hid
    simp only [get?, hid, ih fun around hm => h around (List.mem_cons_of_mem _ hm)]

/-- Where no scope is touched, names stand for what they stood for. -/
theorem get?_eq_of_untouched {after : Store} (h : store.Untouched after)
    (hs : ∀ around ∈ scope.around, around.id < store.bindings.size) : after.get? scope name = store.get? scope name := by
  apply get?_congr
  intro around hm
  rw [h.locals_eq around.id (hs around hm)]

/-- A name that a scope around binds stands for that, if what is nearer binds it to nothing or to the same. -/
theorem get?_eq_some_of_around {near : Scope} {inner outer : List Scope} (ha : scope.around = inner ++ near :: outer)
    (hnear : Assoc.find? name (store.locals near.id) = some object)
    (hinner : ∀ between ∈ inner, Assoc.find? name (store.locals between.id) = none ∨
      Assoc.find? name (store.locals between.id) = some object) : store.get? scope name = some object := by
  rw [get?_eq_findSome?_around, ha]
  clear ha
  induction inner with
  | nil => simp [hnear]
  | cons between inner ih =>
    have ih := ih fun between hm => hinner between (List.mem_cons_of_mem _ hm)
    rcases hinner between List.mem_cons_self with hb | hb
    · simpa [hb] using ih
    · simp [hb]

/-- What a history and its store have in common. -/
structure Keeps (events : List Scope.Event) (store : Store) : Prop where
  /-- Scopes that there are have numbers that were given out. -/
  id_lt : ∀ {scope}, .opened scope ∈ events → scope.id < store.bindings.size
  /-- No two scopes have one number. -/
  eq_of_id_eq : ∀ {scope other}, .opened scope ∈ events → .opened other ∈ events → scope.id = other.id → scope = other
  /-- Scopes are opened within scopes that there are. -/
  around : ∀ {scope}, .opened scope ∈ events → ∀ outer ∈ scope.around, .opened outer ∈ events
  /-- Names are set in scopes that there are. -/
  opened : ∀ {scope name object}, .set scope name object ∈ events → .opened scope ∈ events
  /-- A scope has what was last set in it. -/
  find?_eq_some_iff : ∀ {scope}, .opened scope ∈ events → ∀ name object,
    Assoc.find? name (store.locals scope.id) = some object ↔ scope.LastSet events name object

namespace Keeps

/-- A new scope has a new number, and nothing is set in it. -/
theorem push (k : Keeps events store) {new : Scope} (hid : new.id = store.bindings.size)
    (hnew : ∀ outer ∈ new.around, outer = new ∨ .opened outer ∈ events) :
    Keeps (.opened new :: events) ⟨store.bindings.push [], store.nextId⟩ := by
  have opened_cases : ∀ {scope}, Scope.Event.opened scope ∈ .opened new :: events →
      scope = new ∨ .opened scope ∈ events := by simp
  have locals_eq : ∀ id, (Store.mk (store.bindings.push []) store.nextId).locals id = store.locals id :=
    fun id => locals_enclose new
  constructor
  · intro scope ho
    show scope.id < (store.bindings.push []).size
    rw [Array.size_push]
    rcases opened_cases ho with rfl | ho
    · omega
    · exact Nat.lt_succ_of_lt (k.id_lt ho)
  · intro scope other ho ho' he
    rcases opened_cases ho with rfl | hs <;> rcases opened_cases ho' with rfl | hs'
    · rfl
    · have := k.id_lt hs'
      omega
    · have := k.id_lt hs
      omega
    · exact k.eq_of_id_eq hs hs' he
  · intro scope ho outer hm
    rcases opened_cases ho with rfl | ho
    · simpa using hnew outer hm
    · exact List.mem_cons_of_mem _ (k.around ho outer hm)
  · intro scope name object hs
    simp only [List.mem_cons, reduceCtorEq, false_or] at hs
    exact List.mem_cons_of_mem _ (k.opened hs)
  · intro scope ho name object
    rw [locals_eq, Scope.lastSet_cons_iff]
    simp only [reduceCtorEq, false_or, ne_eq, not_false_eq_true, implies_true, true_and]
    rcases opened_cases ho with rfl | ho
    · -- nothing is bound under a number that was not given out, nor was anything set there
      have hn : store.locals scope.id = [] := by simp [locals, hid]
      rw [hn, Assoc.find?_nil]
      constructor
      · intro h
        cases h
      · rintro ⟨later, earlier, rfl, -⟩
        have := k.id_lt (k.opened (List.mem_append_right later List.mem_cons_self))
        omega
    · exact k.find?_eq_some_iff ho name object

/-- Setting a name in a scope shows there, under that name, and nowhere else. -/
theorem find?_set (k : Keeps events store) {other : Scope} (ho : .opened scope ∈ events) (ho' : .opened other ∈ events)
    {name' : String} : Assoc.find? name ((store.set other name' object).locals scope.id) =
      if scope = other ∧ name = name' then some object else Assoc.find? name (store.locals scope.id) := by
  by_cases hs : scope = other
  · subst hs
    rw [locals_set_self (k.id_lt ho)]
    by_cases hn : name = name'
    · simp [hn, Assoc.find?_insert_self]
    · simp [hn, Assoc.find?_insert_of_ne]
  · have hid : scope.id ≠ other.id := fun he => hs (k.eq_of_id_eq ho ho' he)
    simp [hs, locals_set_of_ne hid]

/-- A setting is the latest that was done to its scope and name. -/
theorem set (k : Keeps events store) (ho : .opened scope ∈ events) (name : String) (object : Object) :
    Keeps (.set scope name object :: events) (store.set scope name object) := by
  have opened_iff : ∀ {other}, Scope.Event.opened other ∈ .set scope name object :: events ↔
      .opened other ∈ events := by simp
  constructor
  · intro other ho'
    rw [size_set]
    exact k.id_lt (opened_iff.mp ho')
  · intro first second ho' ho'' he
    exact k.eq_of_id_eq (opened_iff.mp ho') (opened_iff.mp ho'') he
  · intro other ho' outer hm
    exact opened_iff.mpr (k.around (opened_iff.mp ho') outer hm)
  · intro other name' object' hs
    rw [opened_iff]
    rcases List.mem_cons.mp hs with he | hs
    · cases he
      exact ho
    · exact k.opened hs
  · intro other ho' name' object'
    rw [k.find?_set (opened_iff.mp ho') ho, Scope.lastSet_cons_iff]
    by_cases hs : other = scope ∧ name' = name
    · obtain ⟨rfl, rfl⟩ := hs
      simp
    · have hne : ∀ object', Scope.Event.set scope name object ≠ .set other name' object' := by
        rintro object' ⟨⟩
        exact hs ⟨rfl, rfl⟩
      simp [hs, hne, k.find?_eq_some_iff (opened_iff.mp ho')]

/-- What was never set in a scope is not found there. -/
theorem find?_eq_none_iff (k : Keeps events store) (ho : .opened scope ∈ events) (name : String) :
    Assoc.find? name (store.locals scope.id) = none ↔ scope.Unset events name := by
  rw [← not_iff_not, ← Scope.exists_lastSet_iff, ← ne_eq, Option.ne_none_iff_exists']
  simp only [k.find?_eq_some_iff ho]

end Keeps

/-- Along every history scopes keep what was last set in them. -/
theorem History.keeps (h : History events store) : Keeps events store := by
  induction h with
  | empty => constructor <;> simp
  | openRoot _ ih => exact ih.push rfl fun _ hm => .inl (List.mem_singleton.mp hm)
  | enclose _ ho ih =>
    refine ih.push rfl ?_
    intro outer hm
    rcases List.mem_cons.mp hm with rfl | hm
    · exact .inl rfl
    · exact .inr (ih.around ho outer hm)
  | set _ ho name object ih => exact ih.set ho name object
  | allocate _ value ih => exact ⟨ih.id_lt, ih.eq_of_id_eq, ih.around, ih.opened, ih.find?_eq_some_iff⟩

/-- A scope in which a name was never set is passed by when the name is looked up. -/
theorem Keeps.nearest_iff (k : Keeps events store) (ho : .opened scope ∈ events) (near : Scope) :
    scope.Nearest events name near ↔ ∃ inner outer, scope.around = inner ++ near :: outer ∧
      ∀ between ∈ inner, Assoc.find? name (store.locals between.id) = none := by
  unfold Scope.Nearest
  refine exists_congr fun inner => exists_congr fun outer => and_congr_right fun ha => ?_
  refine forall₂_congr fun between hm => ?_
  have hb : between ∈ scope.around := ha ▸ List.mem_append_left _ hm
  rw [k.find?_eq_none_iff (k.around ho between hb)]

/-- **Scopes behave as their history says.** -/
theorem History.remembers (h : History events store) (ho : .opened scope ∈ events) (name : String) :
    store.Remembers events scope name := by
  have k := h.keeps
  have opened_around := k.around ho
  constructor
  · rw [hasLocal, Option.isSome_iff_exists]
    simp only [k.find?_eq_some_iff ho, Scope.exists_lastSet_iff, Scope.Unset, not_forall, not_not]
  · intro object
    rw [get?_eq_findSome?_around, List.findSome?_eq_some_iff]
    constructor
    · rintro ⟨inner, near, outer, ha, hf, hn⟩
      have hm : near ∈ scope.around := by simp [ha]
      exact ⟨near, (k.nearest_iff ho near).mpr ⟨inner, outer, ha, hn⟩,
        (k.find?_eq_some_iff (opened_around near hm) name object).mp hf⟩
    · rintro ⟨near, hn, hl⟩
      obtain ⟨inner, outer, ha, hn⟩ := (k.nearest_iff ho near).mp hn
      have hm : near ∈ scope.around := by simp [ha]
      exact ⟨inner, near, outer, ha, (k.find?_eq_some_iff (opened_around near hm) name object).mpr hl, hn⟩
  · rw [get?_eq_findSome?_around, List.findSome?_eq_none_iff]
    exact forall₂_congr fun around hm => k.find?_eq_none_iff (opened_around around hm) name
  · intro other name' object ho' hapart
    refine get?_congr fun around hm => ?_
    rw [k.find?_set (opened_around around hm) ho', if_neg]
    rintro ⟨rfl, rfl⟩
    exact hapart.elim (· hm) (· rfl)
  · intro near object hn
    obtain ⟨inner, outer, ha, hn⟩ := (k.nearest_iff ho near).mp hn
    have hnear : .opened near ∈ events := opened_around near (by simp [ha])
    refine get?_eq_some_of_around ha ?_ fun between hm => ?_
    · simp [k.find?_set hnear hnear]
    · rw [k.find?_set (opened_around between (by simp [ha, hm])) hnear, hn between hm]
      split
      · exact .inr rfl
      · exact .inl rfl

/-- Two scopes are opened within one that binds a name, one of them binds the name itself, and it is set once more in
the scope around them: the other one sees the new object. -/
theorem History.remembers_late :
    let early : Object := ⟨3, .string "early"⟩
    let own : Object := ⟨4, .string "own"⟩
    let late : Object := ⟨5, .string "late"⟩
    let left : Scope := .enclosed 1 (.root 0)
    let right : Scope := .enclosed 2 (.root 0)
    let events : List Scope.Event := [.set (.root 0) "x" late, .set left "x" own, .opened right, .opened left,
      .set (.root 0) "x" early, .opened (.root 0)]
    let store : Store := ⟨#[[("x", late)], [("x", own)], []], Object.firstFresh⟩
    Store.History events store ∧ .opened left ∈ events ∧ .opened right ∈ events ∧
      store.Remembers events left "x" ∧ store.Remembers events right "x" ∧
        store.get? left "x" = some own ∧ store.get? right "x" = some late := by
  intro early own late left right events store
  have hroot : Store.History (events.drop 5) ⟨#[[]], Object.firstFresh⟩ := .openRoot .empty
  have hearly : Store.History (events.drop 4) ⟨#[[("x", early)]], Object.firstFresh⟩ :=
    hroot.set List.mem_cons_self "x" early
  have hfirst : Store.History (events.drop 3) ⟨#[[("x", early)], []], Object.firstFresh⟩ :=
    hearly.enclose (by simp [events])
  have hsecond : Store.History (events.drop 2) ⟨#[[("x", early)], [], []], Object.firstFresh⟩ :=
    hfirst.enclose (by simp [events])
  have hown : Store.History (events.drop 1) ⟨#[[("x", early)], [("x", own)], []], Object.firstFresh⟩ :=
    hsecond.set (by simp [events]) "x" own
  have h : Store.History events store := hown.set (by simp [events]) "x" late
  have hleft : .opened left ∈ events := by simp [events]
  have hright : .opened right ∈ events := by simp [events]
  have rleft := h.remembers hleft "x"
  have rright := h.remembers hright "x"
  refine ⟨h, hleft, hright, rleft, rright, (rleft.get?_eq_some_iff own).mpr ?_, (rright.get?_eq_some_iff late).mpr ?_⟩
  · refine ⟨left, ⟨[], [.root 0], rfl, by simp⟩, [.set (.root 0) "x" late], events.drop 2, rfl, ?_⟩
    simp [Scope.Unset, left]
  · refine ⟨.root 0, ⟨[right], [], rfl, ?_⟩, [], events.drop 1, rfl, by simp [Scope.Unset]⟩
    simp [Scope.Unset, events, left, right]

end Store

end TinyScript
