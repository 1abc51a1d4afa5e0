import TinyScript.Evaluation.Operation

/-! # Comparing by identity

For every kind but numbers and strings `==` asks whether two objects are the same one. There is one object for each
truth value, and one null, so **on the shared objects the operators compute on truth values**
(`BinaryOp.apply_ofBool`), though they look at identities alone.
-/

namespace TinyScript

/-- Different truth values are different objects. -/
theorem Object.ofBool_inj {p q : Bool} : Object.ofBool p = Object.ofBool q ↔ p = q := by
  refine ⟨fun h => ?_, congrArg Object.ofBool⟩
  have hv : Value.boolean p = .boolean q := congrArg Object.value h
  cases hv
  rfl

theorem Produced.truth_inj {p q : Bool} : Produced.truth p = .truth q ↔ p = q := by
  unfold Produced.truth
  rw [Produced.existing.injEq, Object.ofBool_inj]

/-- An operator that gives a truth value gives no other one. -/
theorem BinaryOp.apply_eq_true_iff {op : BinaryOp} {a b : Object} {p : Bool} (h : op.apply a b = .ok (.truth p)) :
    op.apply a b = .ok (.truth true) ↔ p = true := by
  rw [h, Except.ok.injEq, Produced.truth_inj]

/-- **On the shared truth values the operators are those of truth values.** -/
theorem BinaryOp.apply_ofBool (p q : Bool) :
    equal.apply (.ofBool p) (.ofBool q) = .ok (.truth (p == q)) ∧
      notEqual.apply (.ofBool p) (.ofBool q) = .ok (.truth (p != q)) ∧
      and.apply (.ofBool p) (.ofBool q) = .ok (.truth (p && q)) ∧
      or.apply (.ofBool p) (.ofBool q) = .ok (.truth (p || q)) := by
  cases p <;> cases q <;> exact ⟨rfl, rfl, rfl, rfl⟩

theorem BinaryOp.apply_equal_null : equal.apply .null .null = .ok (.truth true) :=
  rfl

end TinyScript
