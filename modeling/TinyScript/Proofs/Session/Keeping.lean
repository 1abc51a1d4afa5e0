import TinyScript.Proofs.Evaluation.Regime

/-! # What can be got at, and what sessions keep to

A host runs texts and programs in a session, one after another, and keeps the objects that they give
(`Session.Gave`). What it or any program can then get at are these objects, what is bound in any scope, and what arrays
and hashes among them hold (`Store.Reaches`).

A regime says what stores, scopes and objects are like in each world, and evaluation keeps to it. So does a host, who
runs programs, opens and leaves scopes, and binds what can be got at. **Whatever a host asks of a session, there is a
world in which the session is in order, and with it everything that can be got at** (`Regime.gave`,
`Regime.Session.reaches`).
-/

namespace TinyScript

/-- What can be got at in a store from given objects: these, what any scope binds, and what arrays and hashes hold
that can be got at. A function leads to no more, since all that it can see is bound in some scope. -/
inductive Store.Reaches (store : Store) (given : List Object) : Object → Prop where
  | given {object : Object} (hm : object ∈ given) : Reaches store given object
  | bound {id : Nat} {binding : String × Object} (hm : binding ∈ store.locals id) :
      Reaches store given binding.2
  | held {collection object : Object} (h : Reaches store given collection) (hh : collection.Holds object) :
      Reaches store given object
  | name {hash : Object} {entries : List (Key × Object × Object)} {entry : Key × Object × Object}
      (h : Reaches store given hash) (hv : hash.value = .hash entries) (hm : entry ∈ entries) :
      Reaches store given entry.2.1

/-- The objects that a result hands out. -/
def Result.objects : Result → List Object
  | .value object => [object]
  | .malformed _ => []
  | .failed _ => []

variable [ByteHash]

/-- What a host can ask of a session, with the objects that running texts and programs has given so far, latest
first. An error object that stands for a failure is not among them. -/
inductive Session.Gave : Session → List Object → Prop where
  | fresh : Session.Gave .fresh []
  | interpret {session later : Session} {given : List Object} {depth : Nat} {source : String} {result : Result}
      (h : session.Gave given) (hr : session.interpret depth source = some (result, later)) :
      later.Gave (result.objects ++ given)
  | run {session later : Session} {given : List Object} {depth : Nat} {program : Program} {result : Result}
      (h : session.Gave given) (hr : session.run depth program = some (result, later)) :
      later.Gave (result.objects ++ given)
  | evaluate {session middle later : Session} {given : List Object} {depth : Nat} {program : Program}
      {result : Result} {object : Object} (h : session.Gave given)
      (hr : session.run depth program = some (result, middle))
      (he : session.evaluate depth program = some (object, later)) : later.Gave (result.objects ++ given)
  | openIn {session : Session} {given : List Object} (h : session.Gave given) :
      Session.Gave (.openIn session.store) given
  | set {session : Session} {given : List Object} {object : Object} (h : session.Gave given)
      (ho : session.store.Reaches given object) (name : String) : (session.set name object).Gave given
  | enter {session : Session} {given : List Object} (h : session.Gave given) : session.enter.Gave given
  | exit {session : Session} {given : List Object} (h : session.Gave given) : session.exit.Gave given

/-- A session whose store, scope and given objects are in order. -/
structure Regime.Session {W : Type} (r : Regime W) (world : W) (given : List Object) (session : Session) : Prop where
  store : r.store world session.store
  scope : r.scope world session.scope
  given : ∀ object ∈ given, r.object world object

namespace Regime

variable {W : Type} {r : Regime W} {world next : W} {given new : List Object} {session later : TinyScript.Session}
  {object : Object}

namespace Session

/-- **What can be got at is in order.** -/
theorem reaches (h : r.Session world given session) (hr : session.store.Reaches given object) :
    r.object world object := by
  induction hr with
  | given hm => exact h.given _ hm
  | bound hm => exact r.bound h.store hm
  | held _ hh ih => exact object_of_holds ih hh
  | name _ hv hm ih => exact (r.entry ih hv hm).1

/-- A session that goes on in a later world. -/
theorem advance (h : r.Session world given session) (hl : r.later world next) (hs : r.store next later.store)
    (hc : r.scope next later.scope) : r.Session next given later :=
  ⟨hs, hc, fun object hm => r.object_mono hl (h.given object hm)⟩

/-- A session that gives some more. -/
theorem give (h : r.Session world given session) (hn : ∀ object ∈ new, r.object world object) :
    r.Session world (new ++ given) session :=
  ⟨h.store, h.scope, fun object hm => (List.mem_append.mp hm).elim (hn object) (h.given object)⟩

/-- A run keeps what its regime keeps of the session, and of all objects given so far. -/
theorem run (h : r.Session world given session) {depth : Nat} {program : Program} {result : Result}
    (hr : session.run depth program = some (result, later)) :
    ∃ next, r.later world next ∧ r.Session next (result.objects ++ given) later := by
  obtain ⟨ended, hp, rfl, hscope⟩ := Session.run_eq_some_iff.mp hr
  obtain ⟨next, hl, hs, ho⟩ := exists_of_run h.store h.scope hp
  refine ⟨next, hl, (h.advance hl hs (hscope ▸ r.scope_mono hl h.scope)).give fun object hm => ?_⟩
  cases ended with
  | ok value =>
    obtain rfl := List.mem_singleton.mp hm
    exact ho object rfl
  | error failure => cases hm

end Session

/-- **Whatever a host asks of a session, it stays in order.** -/
theorem gave (r : Regime W) (h : session.Gave given) : ∃ world, r.Session world given session := by
  induction h with
  | fresh =>
    obtain ⟨world, hs⟩ := r.begins
    obtain ⟨next, -, hs, hc⟩ := r.rooted hs
    exact ⟨next, hs, hc, List.forall_mem_nil _⟩
  | interpret _ hr ih =>
    obtain ⟨world, ih⟩ := ih
    obtain ⟨-, rfl, rfl⟩ | ⟨-, hr⟩ := Session.interpret_cases hr
    · exact ⟨world, ih⟩
    · obtain ⟨next, -, hn⟩ := ih.run hr
      exact ⟨next, hn⟩
  | run _ hr ih =>
    obtain ⟨world, ih⟩ := ih
    obtain ⟨next, -, hn⟩ := ih.run hr
    exact ⟨next, hn⟩
  | evaluate _ hr he ih =>
    obtain ⟨world, ih⟩ := ih
    obtain ⟨next, -, hn⟩ := ih.run hr
    obtain rfl | ⟨value, rfl⟩ := Session.evaluate_eq_some hr he
    · exact ⟨next, hn⟩
    · obtain ⟨last, hl, hs⟩ := r.skipped hn.store
      exact ⟨last, hn.advance hl hs (r.scope_mono hl hn.scope)⟩
  | openIn _ ih =>
    obtain ⟨world, ih⟩ := ih
    obtain ⟨next, hl, hs, hc⟩ := r.rooted ih.store
    exact ⟨next, ih.advance hl hs hc⟩
  | set _ ho name ih =>
    obtain ⟨world, ih⟩ := ih
    exact ⟨world, r.assigned ih.store (ih.reaches ho) _ name, ih.scope, ih.given⟩
  | enter _ ih =>
    obtain ⟨world, ih⟩ := ih
    obtain ⟨next, hl, hs, hc⟩ := r.enclosed ih.store ih.scope
    exact ⟨next, ih.advance hl hs hc⟩
  | @exit session _ _ ih =>
    obtain ⟨world, ih⟩ := ih
    refine ⟨world, ih.store, ?_, ih.given⟩
    show r.scope world (session.scope.outer?.getD session.scope)
    cases ho : session.scope.outer? with
    | none => exact ih.scope
    | some around => exact r.outer ih.scope ho

end Regime

end TinyScript
