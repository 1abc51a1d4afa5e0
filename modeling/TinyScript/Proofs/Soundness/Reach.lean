import TinyScript.Proofs.Session.Keeping
import TinyScript.Proofs.Soundness.Evaluation

/-! # Nothing is wrong with what can be got at

Along all that a host can ask of a session, **everything that can be got at is sound and respects the session's table
of links** (`Session.Gave.intact`, `Session.Intact.reaches`): evaluation and hosts keep to both regimes.
-/

namespace TinyScript

variable [ByteHash]

/-- A session in which nothing is wrong with any object that is bound or was given. -/
structure Session.Intact (links : Links) (given : List Object) (session : Session) : Prop where
  sound : session.store.Sound
  linked : session.store.Linked links
  scope_linked : session.scope.Linked links
  given_sound : ∀ object ∈ given, object.Sound session.store.nextId
  given_linked : ∀ object ∈ given, object.Linked links

variable {links : Links} {given : List Object} {session : Session} {object : Object}

/-- **Nothing is wrong with what can be got at.** -/
theorem Session.Intact.reaches (h : session.Intact links given) (hr : session.store.Reaches given object) :
    object.Sound session.store.nextId ∧ object.Linked links := by
  have hs : Object.soundRegime.Session ⟨session.store.nextId, h.sound.firstFresh_le⟩ given session :=
    ⟨⟨rfl, h.sound⟩, trivial, h.given_sound⟩
  have hl : Links.regime.Session links given session := ⟨h.linked, h.scope_linked, h.given_linked⟩
  exact ⟨hs.reaches hr, hl.reaches hr⟩

/-- **Nothing goes wrong in a session, whatever a host asks of it.** -/
theorem Session.Gave.intact (h : session.Gave given) : ∃ links, session.Intact links given := by
  obtain ⟨⟨_, _⟩, hs⟩ := Object.soundRegime.gave h
  obtain ⟨links, hl⟩ := Links.regime.gave h
  obtain ⟨rfl, hsound⟩ := hs.store
  exact ⟨links, hsound, hl.store, hl.scope, hs.given, hl.given⟩

end TinyScript
