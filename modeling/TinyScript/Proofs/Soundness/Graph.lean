import Mathlib.Data.List.Perm.Subperm
import TinyScript.Proofs.Soundness.Reach
import TinyScript.Text.Fx

/-! # The graph of objects

Objects hold each other through arrays and hashes, functions lead to the scopes that they were made in, and scopes to
what they bind: that may go round, for a scope can bind a function that was made in it. Whatever a host asks of a
session, failures included, **every object that can be got at is well-formed** and **every chain of scopes ends in a
scope that nothing is around, with no scope in it twice** (`Session.Gave.wellFormed`). So looking a name up meets no
scope a second time.
-/

namespace TinyScript

/-- The numbers of a scope and of the scopes around it, innermost first. -/
def Scope.chain : Scope → List Nat
  | .root id => [id]
  | .enclosed id outer => id :: outer.chain

/-- A scope whose chain follows the table, meets no scope twice and ends in one that nothing is around. -/
structure Scope.Grounded (links : Links) (scope : Scope) : Prop where
  linked : scope.Linked links
  nodup : scope.chain.Nodup
  lt_length : ∀ id ∈ scope.chain, id < links.length
  ends : ∃ root, scope.chain.getLast? = some root ∧ links[root]? = some none

/-- A value that can give a key: a number that is one, a truth value or a string. -/
inductive Value.Names : Value → Prop where
  | number {value : Single} (h : value ≠ .nan) : Names (.number value)
  | boolean (value : Bool) : Names (.boolean value)
  | string (text : String) : Names (.string text)

variable {links : Links} {scope : Scope} {object : Object}

/-! ## Chains of scopes -/

/-- A number in a chain is that of a scope around, whose own chain is the rest. -/
theorem Scope.exists_of_mem_chain {id : Nat} (hm : id ∈ scope.chain) :
    ∃ around : Scope, around.id = id ∧ around.chain <:+ scope.chain ∧ (scope.Linked links → around.Linked links) := by
  induction scope with
  | root root =>
    obtain rfl := List.mem_singleton.mp hm
    exact ⟨.root id, rfl, List.suffix_rfl, fun h => h⟩
  | enclosed inner outer ih =>
    obtain rfl | hm := List.mem_cons.mp hm
    · exact ⟨.enclosed id outer, rfl, List.suffix_rfl, fun h => h⟩
    · obtain ⟨around, hid, hs, hl⟩ := ih hm
      exact ⟨around, hid, hs.trans (List.suffix_cons inner _), fun h => hl h.2⟩

/-- No scope of a table is around itself: a number says what is around, and so how long the chain is. -/
theorem Scope.Linked.nodup_chain (h : scope.Linked links) : scope.chain.Nodup := by
  induction scope with
  | root id => exact List.pairwise_singleton _ id
  | enclosed id outer ih =>
    refine List.nodup_cons.mpr ⟨fun hm => ?_, ih h.2⟩
    -- a scope around this one with its number would be this one, and yet have a shorter chain
    obtain ⟨around, hid, hs, hl⟩ := Scope.exists_of_mem_chain hm
    obtain rfl := (hl h.2).eq_of_id_eq h hid
    exact absurd hs.length_le (Nat.not_succ_le_self _)

/-- The last scope of a chain is one that nothing is around. -/
theorem Scope.Linked.getLast?_chain (h : scope.Linked links) :
    ∃ root, scope.chain.getLast? = some root ∧ links[root]? = some none := by
  induction scope with
  | root id => exact ⟨id, rfl, h⟩
  | enclosed id outer ih =>
    obtain ⟨root, hr, hl⟩ := ih h.2
    refine ⟨root, ?_, hl⟩
    rw [Scope.chain, List.getLast?_cons, hr, Option.getD_some]

theorem Scope.Linked.grounded (h : scope.Linked links) : scope.Grounded links where
  linked := h
  nodup := h.nodup_chain
  lt_length := fun id hm => by
    obtain ⟨around, rfl, -, hl⟩ := Scope.exists_of_mem_chain hm
    exact (hl h).id_lt
  ends := h.getLast?_chain

/-- A chain is no longer than there are scopes. -/
theorem Scope.Grounded.length_chain_le (h : scope.Grounded links) : scope.chain.length ≤ links.length := by
  have hs : scope.chain ⊆ List.range links.length := fun id hm => List.mem_range.mpr (h.lt_length id hm)
  have hl := (h.nodup.subperm hs).length_le
  rwa [List.length_range] at hl

/-- Looking a name up looks at the scopes of the chain in order, and at no others. -/
theorem Store.get?_eq_findSome? (store : Store) (scope : Scope) (name : String) :
    store.get? scope name = scope.chain.findSome? fun id => Assoc.find? name (store.locals id) := by
  induction scope with
  | root id =>
    rw [Scope.chain, List.findSome?_singleton]
    rfl
  | enclosed id outer ih =>
    rw [Store.get?, Scope.chain, List.findSome?_cons, ih]
    cases Assoc.find? name (store.locals id) <;> rfl

/-! ## Objects -/

section

variable [ByteHash]

/-- What holds of an object that a program may have: it is no error, a hash keeps each entry under the key that the
entry's name gives and no two under one, a builtin function is one of the known ones, and a function's scope is
grounded. -/
structure Object.WellFormed (links : Links) (object : Object) : Prop where
  kind_ne : object.kind ≠ .error
  key : ∀ entries, object.value = .hash entries → ∀ entry ∈ entries,
    entry.2.1.value.key? = some entry.1 ∧ entry.2.1.value.Names
  keys_nodup : ∀ entries, object.value = .hash entries → (entries.map Prod.fst).Nodup
  known : ∀ builtin, object.value = .builtin builtin →
    builtin ∈ Builtin.all ∧ Builtin.ofName? builtin.name = some builtin
  grounded : ∀ parameters body scope, object.value = .function parameters body scope → scope.Grounded links

/-- What gives a key is a number, a truth value or a string. -/
theorem Value.names_of_key? {value : Value} {key : Key} (h : value.key? = some key) : value.Names := by
  cases value with
  | number value =>
    refine .number fun hv => ?_
    subst hv
    cases h
  | boolean value => exact .boolean value
  | string text => exact .string text
  | _ => cases h

/-- What is sound and respects the table of links is well-formed. -/
theorem Object.wellFormed_of_sound {bound : Nat} (hs : object.Sound bound) (hl : object.Linked links) :
    object.WellFormed links := by
  obtain ⟨id, value⟩ := object
  have hv : value.Sound bound id := hs.2
  exact {
    kind_ne := fun hk => by
      cases value with
      | error failure => exact hv
      | _ => cases hk
    key := fun entries he entry hm => by
      obtain rfl : value = .hash entries := he
      obtain ⟨hk, -, -⟩ := Object.soundEntries_iff.mp hv.1 entry hm
      exact ⟨hk, Value.names_of_key? hk⟩
    keys_nodup := fun entries he => by
      obtain rfl : value = .hash entries := he
      exact hv.2
    known := fun builtin _ => ⟨by cases builtin <;> decide, Builtin.ofName?_name builtin⟩
    grounded := fun parameters body scope he => by
      obtain rfl : value = .function parameters body scope := he
      exact Scope.Linked.grounded hl }

/-- **Every object that can be got at is well-formed, and every chain of scopes ends.** -/
theorem Session.Gave.wellFormed {session : Session} {given : List Object} (h : session.Gave given) :
    ∃ links : Links, links.length = session.store.bindings.size ∧ session.scope.Grounded links ∧
      (∀ id < session.store.bindings.size, ∃! scope : Scope, scope.id = id ∧ scope.Grounded links) ∧
      (∀ object, session.store.Reaches given object → object.WellFormed links) ∧
      ∀ scope : Scope, scope.Grounded links → scope.chain.length ≤ session.store.bindings.size ∧
        ∀ name, session.store.get? scope name =
          scope.chain.findSome? fun id => Assoc.find? name (session.store.locals id) := by
  obtain ⟨links, hi⟩ := h.intact
  refine ⟨links, hi.linked.length_eq, hi.scope_linked.grounded, fun id hid => ?_, fun object hr => ?_,
    fun scope hg => ⟨?_, session.store.get?_eq_findSome? scope⟩⟩
  · obtain ⟨scope, rfl, hs⟩ := hi.linked.exists_scope hid
    exact ⟨scope, ⟨rfl, hs.grounded⟩, fun other ho => ho.2.linked.eq_of_id_eq hs ho.1⟩
  · obtain ⟨hs, hl⟩ := hi.reaches hr
    exact Object.wellFormed_of_sound hs hl
  · exact hi.linked.length_eq ▸ hg.length_chain_le

end

/-- A function that is made in a scope with a hash in it, and a program that binds it once more and then fails. -/
theorem Session.Gave.wellFormed_captured :
    let inner : Expr := .function [] (.mk [.expression (.ident ⟨"n", 1⟩) 1] 1) 1
    let program : Program := [.bind ⟨"f", 1⟩ (.function [⟨"n", 1⟩] (.mk [.expression inner 1] 1) 1) 1,
      .bind ⟨"g", 1⟩ (.call (.ident ⟨"f", 1⟩) [.hash [(.boolean true 1, .ident ⟨"len", 1⟩),
        (.string "a" 1, .ident ⟨"f", 1⟩)] 1] 1) 1]
    let failing : Program := [.bind ⟨"b", 1⟩ (.ident ⟨"g", 1⟩) 1, .expression (.unary .negate (.boolean true 1) 1) 1]
    ∃ middle later links result error hash function scope, Session.fresh.run 20 program = some (result, middle) ∧
      middle.evaluate 20 failing = some (error, later) ∧ error.kind = .error ∧ later.get? "b" = some function ∧
        later.store.locals 1 = [("n", hash)] ∧ hash.kind = .hash ∧ hash.WellFormed links ∧
          function.value = .function [] (.mk [.expression (.ident ⟨"n", 1⟩) 1] 1) scope ∧ function.WellFormed links ∧
            scope.chain = [1, 0] ∧ scope.chain.length ≤ later.store.bindings.size := by
  intro inner program failing
  let f : Object := ⟨3, .function [⟨"n", 1⟩] (.mk [.expression inner 1] 1) (.root 0)⟩
  let key : Object := ⟨5, .string "a"⟩
  let hash : Object := ⟨6, .hash [(.boolean true, .ofBool true, ⟨4, .builtin .len⟩),
    (.string (Text.fingerprint "a"), key, f)]⟩
  let g : Object := ⟨7, .function [] (.mk [.expression (.ident ⟨"n", 1⟩) 1] 1) (.enclosed 1 (.root 0))⟩
  have hr : (Session.fresh.run 20 program).map (fun r => ((r.2.run 20 failing).map fun r => r.1.objects,
      (r.2.evaluate 20 failing).map fun r => (r.1.kind, r.2.store.locals 0, r.2.store.locals 1, r.2.scope))) =
      some (some [], some (.error, [("f", f), ("g", g), ("b", g)], [("n", hash)], .root 0)) := rfl
  obtain ⟨⟨result, middle⟩, hrun, hr⟩ := Option.map_eq_some_iff.mp hr
  obtain ⟨hfail, heval⟩ := Prod.ext_iff.mp hr
  obtain ⟨⟨failed, last⟩, hfail, -⟩ := Option.map_eq_some_iff.mp hfail
  obtain ⟨⟨error, store, scope⟩, heval, hl⟩ := Option.map_eq_some_iff.mp heval
  obtain ⟨hkind, hglobal, hlocal, rfl⟩ : error.kind = .error ∧ store.locals 0 = [("f", f), ("g", g), ("b", g)] ∧
      store.locals 1 = [("n", hash)] ∧ scope = .root 0 := by
    simpa only [Prod.mk.injEq] using hl
  obtain ⟨links, -, -, -, hformed, hchain⟩ := Session.Gave.wellFormed (.evaluate (.run .fresh hrun) hfail heval)
  have hn : ("n", hash) ∈ store.locals 1 := hlocal ▸ List.mem_singleton_self _
  have hb : ("g", g) ∈ store.locals 0 := hglobal ▸ List.mem_cons_of_mem _ List.mem_cons_self
  have hg := hformed g (.bound hb)
  exact ⟨middle, _, links, result, error, hash, g, _, hrun, heval, hkind, congrArg (Assoc.find? "b") hglobal, hlocal,
    rfl, hformed hash (.bound hn), rfl, hg, rfl, (hchain _ (hg.grounded _ _ _ rfl)).1⟩

end TinyScript
