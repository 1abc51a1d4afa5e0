import TinyScript.Proofs.Evaluation.Lengthening
import TinyScript.Proofs.Session.Ends
import TinyScript.Text.Fx

/-! # Evaluation writes locally

What is evaluated in a scope may bind names in that scope and open new scopes, and does nothing else to the
scopes there are: **they keep their bindings and their places, whatever is called on the way and however it
ends** (`Store.Linked.evaluatesLocally`). The store has to agree with itself on which scope is around which;
every store that sessions get to does (`Session.Reachable.linked`).
-/

namespace TinyScript

variable {links : Links} {store : Store} {scope : Scope}

/-- The table after an evaluation, without its result. -/
theorem Evaluation.Lengthens.exists_links {α : Type} {linked : Links → α → Prop} {evaluation : Evaluation α}
    (h : evaluation.Lengthens links linked) (hl : store.Linked links) {completion : Completion α}
    {after : Store} (he : evaluation store = some (completion, after)) :
    ∃ more, links <+: more ∧ after.Linked more := by
  obtain ⟨more, hm, ha, _⟩ := h store completion after hl he
  exact ⟨more, hm, ha⟩

section

variable [ByteHash]

/-- What evaluation in a scope of a store leaves as it is. Evaluated code writes to the scope alone, and
there binds only names of its own `let` statements; a call writes to no scope there is. The scope around each
scope stays the same. -/
structure Store.EvaluatesLocally (links : Links) (scope : Scope) (depth : Nat) (store : Store) : Prop where
  eval : ∀ e completion after, Expr.eval depth scope e store = some (completion, after) →
    WritesOnly scope e.letNames store after ∧ ∃ more, links <+: more ∧ after.Linked more
  run : ∀ s completion after, Statement.run depth scope s store = some (completion, after) →
    WritesOnly scope s.letNames store after ∧ ∃ more, links <+: more ∧ after.Linked more
  block : ∀ body completion after, Block.run depth scope body store = some (completion, after) →
    WritesOnly scope body.letNames store after ∧ ∃ more, links <+: more ∧ after.Linked more
  call : ∀ callee arguments line completion after,
    Object.call depth callee arguments line store = some (completion, after) →
      store.Untouched after ∧ (callee.Linked links → Object.LinkedAll links arguments →
        ∃ more, links <+: more ∧ after.Linked more)

/-- **Evaluation in a scope of a store writes to that scope alone**, within every bound. -/
theorem Store.Linked.evaluatesLocally (hl : store.Linked links) (hs : scope.Linked links) (depth : Nat) :
    store.EvaluatesLocally links scope depth := by
  have hid : scope.id < store.bindings.size := hl.length_eq ▸ hs.id_lt
  have w := evalWrites depth
  have l := evalLengthens depth
  refine ⟨fun e completion after h => ?_, fun s completion after h => ?_,
    fun body completion after h => ?_, fun callee arguments line completion after h => ?_⟩
  · exact ⟨w.eval scope e store completion after hid h, (l.eval hs e).exists_links hl h⟩
  · exact ⟨w.run scope s store completion after hid h, (l.run hs s).exists_links hl h⟩
  · exact ⟨w.block scope body store completion after hid h, (l.block hs body).exists_links hl h⟩
  · refine ⟨w.call callee arguments line store completion after h, fun hc ha => ?_⟩
    exact (l.call hc ha line).exists_links hl h

end

/-- A store with a function of the outermost scope, and a second scope within that one in which evaluation takes
place. -/
theorem Store.Linked.evaluatesLocally_enclosed :
    let f : Object := ⟨3, .function [⟨"x", 1⟩] (.mk [.expression (.ident ⟨"x", 1⟩) 1] 1) (.root 0)⟩
    let store : Store := ⟨#[[("f", f)], []], 4⟩
    let scope : Scope := .enclosed 1 (.root 0)
    let links : Links := [none, some (.root 0)]
    store.Linked links ∧ scope.Linked links ∧ store.EvaluatesLocally links scope 20 := by
  intro f store scope links
  have hl : store.Linked links := by
    refine ⟨rfl, fun outer ho => ?_, fun id binding hm => ?_⟩
    · obtain rfl : outer = .root 0 := by simpa [links] using ho
      exact rfl
    match id, hm with
    | 0, hm =>
      obtain rfl := List.mem_singleton.mp hm
      exact rfl
    | 1, hm => cases hm
    | _ + 2, hm => cases hm
  have hs : scope.Linked links := ⟨rfl, rfl⟩
  exact ⟨hl, hs, Store.Linked.evaluatesLocally hl hs 20⟩

/-! ## Sessions -/

variable [ByteHash]

/-- The sessions that running programs, opening scopes and binding what is bound lead to. -/
inductive Session.Reachable : Session → Prop where
  | fresh : Session.Reachable .fresh
  | openIn {session : Session} (h : session.Reachable) : Session.Reachable (.openIn session.store)
  | run {session later : Session} {depth : Nat} {program : Program} {result : Result} (h : session.Reachable)
      (hr : session.run depth program = some (result, later)) : later.Reachable
  | set {session : Session} {name other : String} {object : Object} (h : session.Reachable)
      (ho : session.get? other = some object) : Session.Reachable (session.set name object)
  | enter {session : Session} (h : session.Reachable) : Session.Reachable session.enter
  | exit {session : Session} (h : session.Reachable) : Session.Reachable session.exit

/-- Running a program lengthens the table of links, and its value respects the longer table. -/
theorem Program.linked_run {depth : Nat} {program : Program} {ended : Except Failure Object}
    {after : Store} (hl : store.Linked links) (hs : scope.Linked links)
    (h : Program.run depth scope program store = some (ended, after)) :
    ∃ more, links <+: more ∧ after.Linked more ∧ ∀ object, ended = .ok object → object.Linked more :=
  Links.regime.exists_of_run hl hs h

/-- **A session that can be reached has a store that agrees on which scope is around which.** -/
theorem Session.Reachable.linked {session : Session} (h : session.Reachable) :
    ∃ links, session.store.Linked links ∧ session.scope.Linked links := by
  induction h with
  | fresh =>
    have he : Store.empty.Linked [] := by
      refine ⟨rfl, fun outer ho => ?_, fun id binding hb => ?_⟩
      · cases ho
      · cases hb
    exact ⟨_, he.openRoot⟩
  | openIn _ ih =>
    obtain ⟨links, hl, _⟩ := ih
    exact ⟨_, hl.openRoot⟩
  | run _ hr ih =>
    obtain ⟨links, hl, hs⟩ := ih
    obtain ⟨ended, hp, -, hscope⟩ := Session.run_eq_some_iff.mp hr
    obtain ⟨more, hm, ha, -⟩ := Program.linked_run hl hs hp
    exact ⟨more, ha, hscope ▸ hs.mono hm⟩
  | set _ ho ih =>
    obtain ⟨links, hl, hs⟩ := ih
    exact ⟨links, hl.set _ _ (hl.get? ho), hs⟩
  | enter _ ih =>
    obtain ⟨links, hl, hs⟩ := ih
    exact ⟨_, hl.enclose hs⟩
  | @exit session _ ih =>
    obtain ⟨links, hl, hs⟩ := ih
    obtain ⟨store, scope⟩ := session
    refine ⟨links, hl, ?_⟩
    cases scope with
    | root id => exact hs
    | enclosed id outer => exact hs.2

end TinyScript
