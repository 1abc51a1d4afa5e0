import TinyScript.Proofs.Evaluation.Locality
import TinyScript.Proofs.Soundness.Objects

/-! # Evaluation makes sound objects

From a store that binds sound objects, evaluation leads to such a store and gives a sound object, however it
completes (`evalSound`): sound objects are a regime (`Object.soundRegime`). So **in every session that can be reached
nothing is wrong with any object** (`Session.Reachable.sound`): no program gets hold of an error object, of a truth
value or a null that is not the shared one, or of a hash with an entry under a foreign key.
-/

namespace TinyScript

variable [ByteHash]

/-- A completion with sound objects. -/
def Completion.Sound {α : Type} (bound : Nat) (sound : Nat → α → Prop) : Completion α → Prop
  | .normal value => sound bound value
  | .returned object => object.Sound bound
  | .failed _ => True

/-- From a sound store that made objects up to a bound at least, the evaluation leads to a sound store and a
sound result, and no identity is taken back. -/
def Evaluation.Sounds {α : Type} (bound : Nat) (sound : Nat → α → Prop) (evaluation : Evaluation α) : Prop :=
  ∀ store completion after, store.Sound → bound ≤ store.nextId →
    evaluation store = some (completion, after) →
      store.nextId ≤ after.nextId ∧ after.Sound ∧ completion.Sound after.nextId sound

/-- What is sound stays sound when objects are made. The world is the identity that the next object takes. -/
def Object.soundRegime : Regime { bound : Nat // Object.firstFresh ≤ bound } where
  later bound later := bound.1 ≤ later.1
  store bound store := store.nextId = bound ∧ store.Sound
  scope _ _ := True
  object bound object := object.Sound bound
  value bound value := ∀ id, value.Sound bound id
  entries bound held := Object.SoundEntries bound held ∧ (held.map Prod.fst).Nodup
  refl _ := Nat.le_refl _
  trans := Nat.le_trans
  scope_mono _ _ := trivial
  object_mono hl h := h.mono hl
  entries_mono hl h := ⟨h.1.mono hl, h.2⟩
  ofBool bound truth := Object.sound_ofBool bound.2 truth
  null bound := Object.sound_null bound.2
  element {bound array elements member} h hv hm := by
    have ha := (Object.sound_iff.mp h).2
    rw [hv] at ha
    exact Object.soundAll_iff.mp ha member hm
  entry {bound hash held pair} h hv hm := by
    have ha := (Object.sound_iff.mp h).2
    rw [hv] at ha
    exact (Object.soundEntries_iff.mp ha.1 pair hm).2
  closure _ _ := trivial
  bound {bound store id binding} h hm := h.1 ▸ h.2.bound id binding hm
  number _ _ _ := trivial
  string _ _ _ := trivial
  builtin _ _ _ := trivial
  function _ _ _ _ := trivial
  array h _ := Object.soundAll_iff.mpr h
  hash h _ := h
  nothing _ := ⟨trivial, .nil⟩
  insert hh hk hn hv := ⟨Object.soundEntries_insert hk hn hv hh.1, Assoc.nodup_insert hh.2⟩
  allocated := by
    rintro ⟨_, hb⟩ before value ⟨rfl, h⟩ hv
    obtain ⟨ha, ho⟩ := h.allocate hv
    exact ⟨⟨before.nextId + 1, Nat.le_succ_of_le hb⟩, Nat.le_succ _, ⟨rfl, ha⟩, ho⟩
  assigned := by
    rintro ⟨_, _⟩ before object ⟨rfl, h⟩ ho scope name
    exact ⟨rfl, h.set scope name ho⟩
  enclosed {bound _ _} h _ := ⟨bound, Nat.le_refl _, ⟨h.1, h.2.push⟩, trivial⟩
  begins := ⟨⟨_, Nat.le_refl _⟩, rfl, Nat.le_refl _, fun _ _ hm => nomatch hm⟩
  rooted {bound _} h := ⟨bound, Nat.le_refl _, ⟨h.1, h.2.push⟩, trivial⟩
  outer _ _ := trivial
  skipped := by
    rintro ⟨_, hb⟩ before ⟨rfl, h⟩
    exact ⟨⟨before.nextId + 1, Nat.le_succ_of_le hb⟩, Nat.le_succ _, rfl, h.allocated .null⟩

variable {bound : Nat}

/-- What holds in every world of the regime holds from any bound on the identities. -/
theorem Evaluation.sounds_of_keeps {α : Type} {good sound : Nat → α → Prop} {evaluation : Evaluation α}
    (h : ∀ world : { bound : Nat // Object.firstFresh ≤ bound }, bound ≤ world.1 →
      Object.soundRegime.Keeps world (fun world => good world.1) evaluation)
    (hg : ∀ later value, good later value → sound later value) : evaluation.Sounds bound sound := by
  intro store completion after hs hb he
  obtain ⟨⟨_, _⟩, hl, ⟨rfl, ha⟩, hc⟩ := h ⟨store.nextId, hs.firstFresh_le⟩ hb store completion after ⟨rfl, hs⟩ he
  refine ⟨hl, ha, ?_⟩
  cases completion with
  | normal value => exact hg _ value hc
  | returned object => exact hc
  | failed failure => trivial

/-- Evaluation makes sound objects, within a bound on its depth. -/
structure Sounds (depth : Nat) : Prop where
  eval : ∀ {bound} (_ : Object.firstFresh ≤ bound) (scope e),
    (Expr.eval depth scope e).Sounds bound Object.Sound
  evalAll : ∀ {bound} (_ : Object.firstFresh ≤ bound) (scope es),
    (Expr.evalAll depth scope es).Sounds bound Object.SoundAll
  evalEntries : ∀ {bound} (_ : Object.firstFresh ≤ bound) (scope) {held}
    (_ : Object.SoundEntries bound held ∧ (held.map Prod.fst).Nodup) (entries),
    (Expr.evalEntries depth scope held entries).Sounds bound fun bound held =>
      Object.SoundEntries bound held ∧ (held.map Prod.fst).Nodup
  run : ∀ {bound} (_ : Object.firstFresh ≤ bound) (scope s),
    (Statement.run depth scope s).Sounds bound Object.Sound
  runAll : ∀ {bound} (_ : Object.firstFresh ≤ bound) (scope) {last} (_ : Object.Sound bound last) (ss),
    (Statement.runAll depth scope last ss).Sounds bound Object.Sound
  call : ∀ {bound} (_ : Object.firstFresh ≤ bound) (callee) {arguments} (_ : Object.SoundAll bound arguments)
    (line), (Object.call depth callee arguments line).Sounds bound Object.Sound

/-- Within every bound on its depth evaluation makes sound objects. -/
theorem evalSound (depth : Nat) : Sounds depth := by
  have r := Object.soundRegime.rules depth
  exact {
    eval := fun _ _ e => Evaluation.sounds_of_keeps (fun _ _ => r.eval trivial e) fun _ _ h => h
    evalAll := fun _ _ es =>
      Evaluation.sounds_of_keeps (fun _ _ => r.evalAll trivial es) fun _ _ => Object.soundAll_iff.mpr
    evalEntries := fun _ _ _ hh entries =>
      Evaluation.sounds_of_keeps (fun _ hl => r.evalEntries trivial ⟨hh.1.mono hl, hh.2⟩ entries) fun _ _ h => h
    run := fun _ _ s => Evaluation.sounds_of_keeps (fun _ _ => r.run trivial s) fun _ _ h => h
    runAll := fun _ _ _ hlast ss =>
      Evaluation.sounds_of_keeps (fun _ hl => r.runAll trivial (hlast.mono hl) ss) fun _ _ h => h
    call := fun _ _ _ ha line =>
      Evaluation.sounds_of_keeps (fun _ hl => r.call (fun _ => trivial) (Object.soundAll_iff.mp (ha.mono hl)) line)
        fun _ _ h => h }

/-- Running a program leads to a sound store, and to a sound object if it does not fail. No identity is taken
back. -/
theorem Program.sound_run {depth : Nat} {scope : Scope} {program : Program} {store after : Store}
    {ended : Except Failure Object} (hs : store.Sound)
    (h : Program.run depth scope program store = some (ended, after)) :
    store.nextId ≤ after.nextId ∧ after.Sound ∧ ∀ object, ended = .ok object → object.Sound after.nextId := by
  have hw : Object.soundRegime.store ⟨store.nextId, hs.firstFresh_le⟩ store := ⟨rfl, hs⟩
  obtain ⟨⟨_, _⟩, hl, ⟨rfl, ha⟩, ho⟩ := Object.soundRegime.exists_of_run hw trivial h
  exact ⟨hl, ha, ho⟩

/-- **A session that can be reached binds nothing but sound objects.** -/
theorem Session.Reachable.sound {session : Session} (h : session.Reachable) : session.store.Sound := by
  induction h with
  | fresh =>
    have he : Store.empty.Sound := ⟨Nat.le_refl _, fun _ _ hm => nomatch hm⟩
    exact he.push
  | openIn _ ih => exact ih.push
  | run _ hr ih =>
    obtain ⟨ended, hp, -, -⟩ := Session.run_eq_some_iff.mp hr
    exact (Program.sound_run ih hp).2.1
  | set _ ho ih => exact ih.set _ _ (ih.get? ho)
  | enter _ ih => exact ih.push
  | exit _ ih => exact ih

end TinyScript
