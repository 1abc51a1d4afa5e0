import TinyScript.Proofs.Evaluation.Links
import TinyScript.Proofs.Evaluation.Regime

/-! # Evaluation lengthens the table of links

From a store and operands that respect a table of links, evaluation leads to a store and a result that
respect the same table with the scopes that were opened at its end, however it completes (`evalLengthens`).
**So the scope around a scope never changes.** Tables of links are a regime (`Links.regime`): the closures that are
called are the ones that the store and the operands hold, and each opens its scope within one of the table.
-/

namespace TinyScript

/-- A completion with objects of a table. -/
def Completion.Linked {α : Type} (links : Links) (linked : Links → α → Prop) : Completion α → Prop
  | .normal value => linked links value
  | .returned object => object.Linked links
  | .failed _ => True

/-- From a store of a table the evaluation leads to a store and a result of a table that begins with it. -/
def Evaluation.Lengthens {α : Type} (links : Links) (linked : Links → α → Prop) (evaluation : Evaluation α) : Prop :=
  ∀ store completion after, store.Linked links → evaluation store = some (completion, after) →
    ∃ more, links <+: more ∧ after.Linked more ∧ completion.Linked more linked

variable [ByteHash]

/-- What is around what stays the same when scopes are opened: a link is added at the end of the table for each. -/
def Links.regime : Regime Links where
  later := List.IsPrefix
  store links store := store.Linked links
  scope links scope := scope.Linked links
  object links object := object.Linked links
  value links value := value.Linked links
  entries := Object.LinkedEntries
  refl := List.prefix_refl
  trans := List.IsPrefix.trans
  scope_mono hm h := h.mono hm
  object_mono hm h := h.mono hm
  entries_mono hm h := h.mono hm
  ofBool _ _ := trivial
  null _ := Object.linked_null
  element {links array elements member} h hv hm := by
    have ha := Object.linked_iff.mp h
    rw [hv] at ha
    exact Object.linkedAll_iff.mp ha member hm
  entry {links hash held pair} h hv hm := by
    have hh := Object.linked_iff.mp h
    rw [hv] at hh
    exact Object.linkedEntries_iff.mp hh pair hm
  closure {links function parameters body inner} h hv := by
    have hf := Object.linked_iff.mp h
    rw [hv] at hf
    exact hf
  bound h hm := h.bound _ _ hm
  number _ _ := trivial
  string _ _ := trivial
  builtin _ _ := trivial
  function hs _ _ := hs
  array h := Object.linkedAll_iff.mpr h
  hash h := h
  nothing _ := trivial
  insert := by
    intro links held key name value hh _ hn hv
    refine Object.linkedEntries_iff.mpr fun entry hm => ?_
    obtain rfl | hm := Assoc.mem_insert hm
    · exact ⟨hn, hv⟩
    · exact Object.linkedEntries_iff.mp hh entry hm
  allocated {links _ _} h hv := ⟨links, List.prefix_rfl, ⟨h.length_eq, h.outer, h.bound⟩, hv⟩
  assigned h ho scope name := h.set scope name ho
  enclosed {links _ _} h ho := ⟨_, List.prefix_append links _, h.enclose ho⟩
  begins := ⟨[], rfl, fun _ ho => (nomatch ho), fun _ _ hm => (nomatch hm)⟩
  rooted {links _} h := ⟨_, List.prefix_append links _, h.openRoot⟩
  outer {links inner around} h ho := by
    cases inner with
    | root id => cases ho
    | enclosed id outer =>
      cases ho
      exact h.2
  skipped {links _} h := ⟨links, List.prefix_rfl, h.length_eq, h.outer, h.bound⟩

variable {links : Links} {scope : Scope}

/-- What the regime of links keeps lengthens the store, and gives what is linked in the longer one. -/
theorem Regime.Keeps.lengthens {α : Type} {good linked : Links → α → Prop} {evaluation : Evaluation α}
    (h : Links.regime.Keeps links good evaluation) (hg : ∀ more value, good more value → linked more value) :
    evaluation.Lengthens links linked := by
  intro store completion after hs he
  obtain ⟨more, hm, ha, hc⟩ := h store completion after hs he
  refine ⟨more, hm, ha, ?_⟩
  cases completion with
  | normal value => exact hg more value hc
  | returned object => exact hc
  | failed failure => trivial

/-- Evaluation lengthens the table of links, within a bound. -/
structure Lengthens (depth : Nat) : Prop where
  eval : ∀ {links scope} (_ : Scope.Linked links scope) (e),
    (Expr.eval depth scope e).Lengthens links Object.Linked
  evalAll : ∀ {links scope} (_ : Scope.Linked links scope) (es),
    (Expr.evalAll depth scope es).Lengthens links Object.LinkedAll
  evalEntries : ∀ {links scope} (_ : Scope.Linked links scope) {held} (_ : Object.LinkedEntries links held)
    (entries), (Expr.evalEntries depth scope held entries).Lengthens links Object.LinkedEntries
  run : ∀ {links scope} (_ : Scope.Linked links scope) (s),
    (Statement.run depth scope s).Lengthens links Object.Linked
  runAll : ∀ {links scope} (_ : Scope.Linked links scope) {last} (_ : Object.Linked links last) (ss),
    (Statement.runAll depth scope last ss).Lengthens links Object.Linked
  call : ∀ {links callee arguments} (_ : Object.Linked links callee) (_ : Object.LinkedAll links arguments)
    (line), (Object.call depth callee arguments line).Lengthens links Object.Linked

/-- The statements of a block lengthen the store. -/
theorem Lengthens.block {depth : Nat} (l : Lengthens depth) (hs : scope.Linked links) (body : Block) :
    (Statement.runAll depth scope .null body.statements).Lengthens links Object.Linked :=
  l.runAll hs Object.linked_null body.statements

/-- Within every bound evaluation lengthens the table of links. -/
theorem evalLengthens (depth : Nat) : Lengthens depth := by
  have r := Links.regime.rules depth
  exact {
    eval := fun hs e => (r.eval hs e).lengthens fun _ _ h => h
    evalAll := fun hs es => (r.evalAll hs es).lengthens fun _ _ => Object.linkedAll_iff.mpr
    evalEntries := fun hs _ hh entries => (r.evalEntries hs hh entries).lengthens fun _ _ h => h
    run := fun hs s => (r.run hs s).lengthens fun _ _ h => h
    runAll := fun hs _ hl ss => (r.runAll hs hl ss).lengthens fun _ _ h => h
    call := fun hc ha line =>
      (r.call (Links.regime.closure hc) (Object.linkedAll_iff.mp ha) line).lengthens fun _ _ h => h }

end TinyScript
