import TinyScript.Proofs.Evaluation.Unwinding
import TinyScript.Proofs.Evaluation.Writes

/-! # What is bound at a place

On the way to a place in a program evaluation gives no scope up (`Context.Reaches.size_le`), and what stands there binds
names in its scope alone, namely those of its own `let` statements (`Part.writesOnly`). A program that fails has such a
place: **one of its statements fails, those before it having been run to their ends**
(`Statement.exists_of_runAll_failed`).
-/

namespace TinyScript

open Evaluation (Completes)

/-- The names that evaluating a part can bind in the scope around it. -/
def Part.letNames : (part : Part) → part.Term → List String
  | .expression => Expr.letNames
  | .statement => Statement.letNames
  | .statements => Statement.letNamesAll

variable {scope : Scope} {store reached after : Store}

variable [ByteHash]

/-- Of what there is, a part of a program changes the bindings of its own scope alone, and of these the names that it
binds. -/
theorem Part.writesOnly {part : Part} {term : part.Term} {completion : Completion Object}
    (h : Completes (part.eval · scope term) store completion after) (hs : scope.id < store.bindings.size) :
    Store.WritesOnly scope (part.letNames term) store after := by
  obtain ⟨depth, hd⟩ := h
  cases part with
  | expression => exact (evalWrites depth).eval scope term store completion after hs hd
  | statement => exact (evalWrites depth).run scope term store completion after hs hd
  | statements => exact (evalWrites depth).runAll scope .null term store completion after hs hd

/-- On the way to the place of a frame no scope is given up. -/
theorem Frame.Reaches.size_le {part whole : Part} {frame : Frame part whole} (h : frame.Reaches scope store reached)
    (hs : scope.id < store.bindings.size) : store.bindings.size ≤ reached.bindings.size := by
  cases frame with
  | unary | binaryLeft | condition | callee | collection | bind | leave | standing | block =>
    obtain rfl := h
    exact Nat.le_refl _
  | binaryRight left | position left =>
    obtain ⟨object, depth, hl⟩ := h
    exact ((evalWrites depth).eval scope left store _ reached hs hl).size_le
  | consequence test | alternative test =>
    obtain ⟨object, ⟨depth, ht⟩, -⟩ := h
    exact ((evalWrites depth).eval scope test store _ reached hs ht).size_le
  | argument function before =>
    obtain ⟨object, objects, middle, ⟨depth, hf⟩, ⟨depth', hb⟩⟩ := h
    have hle := ((evalWrites depth).eval scope function store _ middle hs hf).size_le
    have hle' := ((evalWrites depth').evalAll scope before middle _ reached (Nat.lt_of_lt_of_le hs hle) hb).size_le
    exact Nat.le_trans hle hle'
  | element before =>
    obtain ⟨objects, depth, hb⟩ := h
    exact ((evalWrites depth).evalAll scope before store _ reached hs hb).size_le
  | key before =>
    obtain ⟨held, depth, hb⟩ := h
    exact ((evalWrites depth).evalEntries scope [] before store _ reached hs hb).size_le
  | value before name =>
    obtain ⟨held, object, middle, ⟨depth, hb⟩, ⟨depth', hn⟩, -⟩ := h
    have hle := ((evalWrites depth).evalEntries scope [] before store _ middle hs hb).size_le
    have hle' := ((evalWrites depth').eval scope name middle _ reached (Nat.lt_of_lt_of_le hs hle) hn).size_le
    exact Nat.le_trans hle hle'
  | among before =>
    obtain ⟨object, depth, hb⟩ := h
    exact ((evalWrites depth).runAll scope .null before store _ reached hs hb).size_le

/-- No scope is gone when evaluation comes to a place. -/
theorem Context.Reaches.size_le {part whole : Part} {context : Context part whole}
    (h : context.Reaches scope store reached) (hs : scope.id < store.bindings.size) :
    store.bindings.size ≤ reached.bindings.size := by
  induction context generalizing store with
  | hole =>
    obtain rfl := h
    exact Nat.le_refl _
  | within frame inner ih =>
    obtain ⟨middle, hf, hi⟩ := h
    have hle := hf.size_le hs
    exact Nat.le_trans hle (ih hi (Nat.lt_of_lt_of_le hs hle))

/-- Statements that fail do so with one of them, those before it having been run to their ends. -/
theorem Statement.exists_of_runAll_failed {ss : List Statement} {depth : Nat} {last : Object} {failure : Failure}
    (h : Statement.runAll depth scope last ss store = some (.failed failure, after)) :
    ∃ before statement behind object reached, ss = before ++ statement :: behind ∧
      Completes (Statement.runAll · scope last before) store (.normal object) reached ∧
      Completes (Statement.run · scope statement) reached (.failed failure) after := by
  induction ss generalizing depth last store with
  | nil =>
    cases depth with
    | zero => cases h
    | succ depth => cases h
  | cons s ss ih =>
    cases depth with
    | zero => cases h
    | succ depth =>
      rcases Evaluation.bind_eq_some h with ⟨object, middle, hr, ht⟩ | ⟨_, _, he⟩ | ⟨_, hr, he⟩
      · obtain ⟨before, statement, behind, given, reached, rfl, hb, hs⟩ := ih ht
        refine ⟨s :: before, statement, behind, given, reached, rfl, ?_, hs⟩
        exact .of_succ (.bind ⟨depth, hr⟩ hb (Statement.run_within · scope s)
          (Statement.runAll_within · scope object before))
      · cases he
      · cases he
        exact ⟨[], s, ss, last, store, rfl, ⟨1, rfl⟩, ⟨depth, hr⟩⟩

end TinyScript
