import TinyScript.Proofs.Equality.Identity
import TinyScript.Proofs.Soundness.Reach
import TinyScript.Text.Fx

/-! # One object for each truth value, and one null

No program ever makes a truth value or null of its own: literals, comparisons, `!`, empty bodies, missing
alternatives, bare returns and look-ups that find nothing all give the shared objects. So of whatever can be got at
in a session, **truth values and null are the shared objects**, and operators that ask which object something is
compute on truth values (`Session.Gave.shared`).
-/

namespace TinyScript

variable {object a b : Object} {bound : Nat} {p q : Bool}

theorem Value.kind_eq_boolean_iff {value : Value} : value.kind = .boolean ↔ ∃ p, value = .boolean p := by
  cases value <;> simp [Value.kind]

theorem Value.kind_eq_null_iff {value : Value} : value.kind = .null ↔ value = .null := by
  cases value <;> simp [Value.kind]

section

variable [ByteHash]

/-- A sound truth value is the shared object of its truth value. -/
theorem Object.Sound.eq_ofBool (h : object.Sound bound) (hv : object.value = .boolean p) : object = .ofBool p := by
  obtain ⟨id, value⟩ := object
  obtain rfl : value = .boolean p := hv
  exact congrArg (Object.mk · (.boolean p)) h.2

/-- A sound null is the shared one. -/
theorem Object.Sound.eq_null (h : object.Sound bound) (hk : object.kind = .null) : object = .null := by
  obtain ⟨id, value⟩ := object
  obtain rfl : value = .null := Value.kind_eq_null_iff.mp hk
  exact congrArg (Object.mk · .null) h.2

/-- A sound boolean is one of the two objects that stand for the booleans. -/
theorem Object.Sound.eq_ofBool_or (h : object.Sound bound) (hk : object.kind = .boolean) :
    object = .ofBool true ∨ object = .ofBool false := by
  obtain ⟨p, hp⟩ := Value.kind_eq_boolean_iff.mp hk
  cases p
  · exact .inr (h.eq_ofBool hp)
  · exact .inl (h.eq_ofBool hp)

/-- **Truth values and null are the shared objects wherever they are found**, so equality and the logical operators
are right on them although they look at identities. -/
theorem Session.Gave.shared {session : Session} {given : List Object} (h : session.Gave given) :
    (∀ object, session.store.Reaches given object →
      (object.kind = .boolean → object = .ofBool true ∨ object = .ofBool false) ∧
        (object.kind = .null → object = .null)) ∧
    (∀ a b p q, session.store.Reaches given a → session.store.Reaches given b →
      a.value = .boolean p → b.value = .boolean q →
        BinaryOp.equal.apply a b = .ok (.truth (p == q)) ∧ BinaryOp.notEqual.apply a b = .ok (.truth (p != q)) ∧
          BinaryOp.and.apply a b = .ok (.truth (p && q)) ∧ BinaryOp.or.apply a b = .ok (.truth (p || q))) ∧
    ∀ a b, session.store.Reaches given a → session.store.Reaches given b → a.kind = .null → b.kind = .null →
      BinaryOp.equal.apply a b = .ok (.truth true) := by
  obtain ⟨links, hi⟩ := h.intact
  have hs : ∀ object, session.store.Reaches given object → object.Sound session.store.nextId :=
    fun object hr => (hi.reaches hr).1
  refine ⟨fun object hr => ⟨(hs object hr).eq_ofBool_or, (hs object hr).eq_null⟩, fun a b p q ha hb hp hq => ?_,
    fun a b ha hb hn hn' => ?_⟩
  · rw [(hs a ha).eq_ofBool hp, (hs b hb).eq_ofBool hq]
    exact BinaryOp.apply_ofBool p q
  · rw [(hs a ha).eq_null hn, (hs b hb).eq_null hn']
    exact BinaryOp.apply_equal_null

end

/-- A function that gives null where its argument counts as false, and the array of two calls of it and a comparison.
-/
theorem Session.Gave.shared_branches :
    let branch : Expr := .conditional (.ident ⟨"x", 1⟩) (.mk [.expression (.unary .not (.ident ⟨"x", 1⟩) 1) 1] 1) none 1
    let call (argument : Expr) : Expr := .call (.ident ⟨"f", 1⟩) [argument] 1
    let program : Program := [.bind ⟨"f", 1⟩ (.function [⟨"x", 1⟩] (.mk [.expression branch 1] 1) 1) 1,
      .expression (.array [call (.boolean true 1), call (.boolean false 1),
        .binary .less (.number .zero 1) (.number .zero 1) 1] 1) 1]
    ∃ array later a b c, Session.fresh.run 20 program = some (.value array, later) ∧ array.value = .array [a, b, c] ∧
      (a.kind = .boolean ∧ (a = .ofBool true ∨ a = .ofBool false)) ∧ b = .null ∧
        BinaryOp.equal.apply a c = .ok (.truth true) ∧ BinaryOp.equal.apply b b = .ok (.truth true) := by
  intro branch call program
  let elements : List Object := [.ofBool false, .null, .ofBool false]
  have hr : (Session.fresh.run 20 program).map Prod.fst = some (.value ⟨6, .array elements⟩) := rfl
  obtain ⟨⟨result, later⟩, hr, rfl⟩ := Option.map_eq_some_iff.mp hr
  obtain ⟨hshared, htruth, hnull⟩ := Session.Gave.shared (.run .fresh hr)
  have hm : ∀ object ∈ elements, later.store.Reaches [⟨6, .array elements⟩] object :=
    fun object hm => .held (.given List.mem_cons_self) (.element rfl hm)
  have ha := hm (.ofBool false) List.mem_cons_self
  have hb := hm .null (List.mem_cons_of_mem _ List.mem_cons_self)
  exact ⟨_, later, _, _, _, hr, rfl, ⟨rfl, (hshared _ ha).1 rfl⟩, (hshared _ hb).2 rfl,
    (htruth _ _ _ _ ha ha rfl rfl).1, hnull _ _ hb hb rfl rfl⟩

end TinyScript
