import Mathlib.Logic.ExistsUnique
import TinyScript.Evaluation.Completion
import TinyScript.Proofs.Equality.Identity

/-! # Laws of comparison

`==` is defined three times: numbers are equal as numbers, strings by content, and everything else is compared by
identity. All three ask whether two objects are told by the same thing (`Object.comparand?`): where a number stands on
the line, what a string says, which object another one is. A not-a-number stands nowhere. So on operands of one kind
`==` is equality of something that all objects but the not-a-numbers have (`BinaryOp.apply_equal`), and on numbers `<`,
`==` and `>` are the order of places on a line (`BinaryOp.holds_less_iff` and the lemmas after it).

**The laws of comparison** (`Object.comparisonLaws`) are read off from that, for all objects at once.
-/

namespace TinyScript

open Evaluation

/-- What an object is told from others of its kind by. -/
inductive Object.Comparand where
  | position (units : Int)
  | text (text : String)
  | identity (id : Nat)
  deriving DecidableEq

/-- What an object is told by, if by anything. -/
def Object.comparand? (object : Object) : Option Object.Comparand :=
  match object.value with
  | .number x => x.position.map .position
  | .string text => some (.text text)
  | _ => some (.identity object.id)

/-- Told by something, and by the same. -/
def Object.Coincides (a b : Object) : Prop :=
  a.comparand? = b.comparand? ∧ a.comparand? ≠ none

instance (a b : Object) : Decidable (a.Coincides b) := inferInstanceAs (Decidable (_ ∧ _))

/-- The operators that compare. -/
def BinaryOp.comparisons : List BinaryOp := [.equal, .notEqual, .less, .greater, .lessEqual, .greaterEqual]

/-- An operator gives true of two objects. -/
def BinaryOp.Holds (op : BinaryOp) (a b : Object) : Prop := op.apply a b = .ok (.truth true)

variable {a b c : Object} {x y : Single} {op : BinaryOp} {p : Bool}

/-! ## Equality -/

/-- Every number but not-a-number has a position. -/
theorem Single.position_eq_none_iff : x.position = none ↔ x = .nan := by
  cases x <;> simp [position]

/-- Not-a-numbers alone are told by nothing. -/
theorem Object.comparand?_eq_none_iff : a.comparand? = none ↔ a.value = .number .nan := by
  obtain ⟨id, value⟩ := a
  cases value <;> simp [comparand?, Single.position_eq_none_iff]

/-- Only a not-a-number does not coincide with itself. -/
theorem Object.coincides_self_iff : a.Coincides a ↔ a.value ≠ .number .nan := by
  simp [Coincides, comparand?_eq_none_iff]

theorem Object.Coincides.symm (h : a.Coincides b) : b.Coincides a :=
  ⟨h.1.symm, h.1 ▸ h.2⟩

theorem Object.Coincides.trans (h : a.Coincides b) (h' : b.Coincides c) : a.Coincides c :=
  ⟨h.1.trans h'.1, h.2⟩

/-- Numbers coincide where they are equal as numbers, so the two zeros do. -/
theorem Object.coincides_iff_of_numbers (ha : a.value = .number x) (hb : b.value = .number y) :
    a.Coincides b ↔ x.equal y = true := by
  simp only [Coincides, comparand?, ha, hb, Single.equal]
  cases x.position <;> cases y.position <;> simp

/-- Strings coincide where they are one text. -/
theorem Object.coincides_iff_of_strings {s t : String} (ha : a.value = .string s) (hb : b.value = .string t) :
    a.Coincides b ↔ s = t := by
  simp [Coincides, comparand?, ha, hb]

theorem BinaryOp.apply_numbers (ha : a.value = .number x) (hb : b.value = .number y) (op : BinaryOp) :
    op.apply a b = op.onNumbers x y := by
  unfold apply
  rw [ha, hb]

theorem BinaryOp.apply_strings {s t : String} (ha : a.value = .string s) (hb : b.value = .string t) (op : BinaryOp) :
    op.apply a b = op.onStrings s t := by
  unfold apply
  rw [ha, hb]

/-- Operands of two kinds are a fault of every operator. -/
theorem BinaryOp.apply_of_kind_ne (h : a.kind ≠ b.kind) :
    op.apply a b = .error (.typeMismatch a.kind op b.kind) := by
  unfold apply
  split
  · next hx hy => exact absurd (by simp [Object.kind, hx, hy, Value.kind]) h
  · next hs ht => exact absurd (by simp [Object.kind, hs, ht, Value.kind]) h
  · exact if_neg h

/-- What an operator is applied to without a fault is of one kind. -/
theorem BinaryOp.kind_eq_of_ok {produced : Produced} (h : op.apply a b = .ok produced) : a.kind = b.kind := by
  by_cases hk : a.kind = b.kind
  · exact hk
  · rw [apply_of_kind_ne hk] at h
    cases h

/-- Operands of one kind are two numbers, two strings, or two objects that are told by identity. -/
theorem BinaryOp.dispatch (h : a.kind = b.kind) :
    (∃ x y, a.value = .number x ∧ b.value = .number y) ∨
      (∃ s t, a.value = .string s ∧ b.value = .string t) ∨
      (a.comparand? = some (.identity a.id) ∧ b.comparand? = some (.identity b.id) ∧
        ∀ op : BinaryOp, op.apply a b = op.onIdentity a b) := by
  obtain ⟨id, value⟩ := a
  obtain ⟨id', value'⟩ := b
  cases value with
  | number x =>
    cases value' with
    | number y => exact .inl ⟨x, y, rfl, rfl⟩
    | _ => cases h
  | string s =>
    cases value' with
    | string t => exact .inr (.inl ⟨s, t, rfl, rfl⟩)
    | _ => cases h
  | _ =>
    -- a value of another kind than the first is excluded, and the same kind is none of the two above
    cases value' <;> first
      | (cases h; done)
      | exact .inr (.inr ⟨rfl, rfl, fun op => by simp only [apply, h, if_true]⟩)

/-- **On operands of one kind `==` asks whether they are told by the same thing**, and `!=` whether they are not. -/
theorem BinaryOp.apply_equal (h : a.kind = b.kind) :
    equal.apply a b = .ok (.truth (decide (a.Coincides b))) ∧
      notEqual.apply a b = .ok (.truth !decide (a.Coincides b)) := by
  obtain ⟨x, y, ha, hb⟩ | ⟨s, t, ha, hb⟩ | ⟨ha, hb, hi⟩ := dispatch h
  · have hc : decide (a.Coincides b) = x.equal y := by
      rw [Bool.eq_iff_iff, decide_eq_true_iff, Object.coincides_iff_of_numbers ha hb]
    rw [apply_numbers ha hb, apply_numbers ha hb, hc]
    exact ⟨rfl, rfl⟩
  · have hc : decide (a.Coincides b) = (s == t) := by
      rw [Bool.eq_iff_iff, decide_eq_true_iff, beq_iff_eq, Object.coincides_iff_of_strings ha hb]
    rw [apply_strings ha hb, apply_strings ha hb, hc]
    exact ⟨rfl, rfl⟩
  · have hc : decide (a.Coincides b) = a.same b := by
      rw [Bool.eq_iff_iff, decide_eq_true_iff]
      simp [Object.Coincides, ha, hb, Object.same]
    rw [hi, hi, hc]
    exact ⟨rfl, rfl⟩

/-- On operands of one kind, the equality of the language is coincidence. -/
theorem BinaryOp.holds_equal_iff (h : a.kind = b.kind) : equal.Holds a b ↔ a.Coincides b := by
  rw [Holds, apply_eq_true_iff (apply_equal h).1, decide_eq_true_iff]

/-! ## Order -/

section Numbers

variable (ha : a.value = .number x) (hb : b.value = .number y)
include ha hb

/-- **Comparisons of numbers are those of where they stand**, and none holds of a number that stands nowhere. -/
theorem BinaryOp.holds_iff_positions :
    (equal.Holds a b ↔ ∃ m n, x.position = some m ∧ y.position = some n ∧ m = n) ∧
      (less.Holds a b ↔ ∃ m n, x.position = some m ∧ y.position = some n ∧ m < n) ∧
      (greater.Holds a b ↔ ∃ m n, x.position = some m ∧ y.position = some n ∧ n < m) ∧
      (lessEqual.Holds a b ↔ ∃ m n, x.position = some m ∧ y.position = some n ∧ m ≤ n) ∧
      (greaterEqual.Holds a b ↔ ∃ m n, x.position = some m ∧ y.position = some n ∧ n ≤ m) := by
  simp only [Holds, apply_numbers ha hb, onNumbers, Except.ok.injEq, Produced.truth_inj, Single.equal, Single.less,
    Single.lessEqual]
  cases x.position with
  | none => simp
  | some m =>
    cases y.position with
    | none => simp
    | some n =>
      simp only [Option.some.injEq, exists_and_left, exists_eq_left', beq_iff_eq, decide_eq_true_eq, and_self]

/-- Every comparison of two numbers gives a truth value. -/
theorem BinaryOp.exists_truth_of_numbers (hop : op ∈ comparisons) : ∃ p, op.apply a b = .ok (.truth p) := by
  simp only [comparisons, List.mem_cons, List.not_mem_nil, or_false] at hop
  rw [apply_numbers ha hb]
  rcases hop with rfl | rfl | rfl | rfl | rfl | rfl <;> exact ⟨_, rfl⟩

end Numbers

/-- The laws of comparing two numbers. -/
structure BinaryOp.OrderLaws (a b : Object) (x y : Single) : Prop where
  gives : ∀ op ∈ comparisons, ∃ p, op.apply a b = .ok (.truth p)
  exactly_one : x ≠ .nan → y ≠ .nan → ∃! op, op ∈ [less, equal, greater] ∧ op.Holds a b
  none_of_nan : x = .nan ∨ y = .nan → ∀ op ∈ [less, equal, greater], ¬ op.Holds a b
  lessEqual_iff : lessEqual.Holds a b ↔ less.Holds a b ∨ equal.Holds a b
  greaterEqual_iff : greaterEqual.Holds a b ↔ lessEqual.Holds b a
  less_iff : less.Holds a b ↔ greater.Holds b a

/-- **Numbers are ordered as places on a line are**, as far as they have places. -/
theorem BinaryOp.orderLaws (ha : a.value = .number x) (hb : b.value = .number y) : OrderLaws a b x y := by
  obtain ⟨heq, hlt, hgt, hle, hge⟩ := holds_iff_positions ha hb
  obtain ⟨-, -, hgt', hle', -⟩ := holds_iff_positions hb ha
  constructor
  case gives => exact fun op hop => exists_truth_of_numbers ha hb hop
  case exactly_one =>
    intro hx hy
    obtain ⟨m, hm⟩ := Option.ne_none_iff_exists'.mp (mt Single.position_eq_none_iff.mp hx)
    obtain ⟨n, hn⟩ := Option.ne_none_iff_exists'.mp (mt Single.position_eq_none_iff.mp hy)
    have heq : equal.Holds a b ↔ m = n := by simp [heq, hm, hn, eq_comm]
    have hlt : less.Holds a b ↔ m < n := by simp [hlt, hm, hn]
    have hgt : greater.Holds a b ↔ n < m := by simp [hgt, hm, hn]
    apply existsUnique_of_exists_of_unique
    · rcases Int.lt_trichotomy m n with h | h | h
      · exact ⟨less, by simp, hlt.mpr h⟩
      · exact ⟨equal, by simp, heq.mpr h⟩
      · exact ⟨greater, by simp, hgt.mpr h⟩
    · rintro op op' ⟨hop, h⟩ ⟨hop', h'⟩
      simp only [List.mem_cons, List.not_mem_nil, or_false] at hop hop'
      rcases hop with rfl | rfl | rfl <;> rcases hop' with rfl | rfl | rfl <;> grind
  case none_of_nan =>
    intro hn op hop
    have hp : x.position = none ∨ y.position = none := by simpa [Single.position_eq_none_iff] using hn
    simp only [List.mem_cons, List.not_mem_nil, or_false] at hop
    rcases hop with rfl | rfl | rfl <;> rcases hp with hp | hp <;> simp [heq, hlt, hgt, hp]
  case lessEqual_iff =>
    rw [hle, hlt, heq]
    simp only [Int.le_iff_lt_or_eq]
    grind
  case greaterEqual_iff => grind
  case less_iff => grind

/-! ## All objects -/

/-- A comparison that gives an object gives a truth value. -/
theorem BinaryOp.exists_truth_of_ok {produced : Produced} (hop : op ∈ comparisons) (h : op.apply a b = .ok produced) :
    ∃ p, produced = .truth p := by
  simp only [comparisons, List.mem_cons, List.not_mem_nil, or_false] at hop
  obtain ⟨x, y, ha, hb⟩ | ⟨s, t, ha, hb⟩ | ⟨-, -, hi⟩ := dispatch (kind_eq_of_ok h)
  · rw [apply_numbers ha hb] at h
    rcases hop with rfl | rfl | rfl | rfl | rfl | rfl <;> cases h <;> exact ⟨_, rfl⟩
  · rw [apply_strings ha hb] at h
    rcases hop with rfl | rfl | rfl | rfl | rfl | rfl <;> cases h <;> exact ⟨_, rfl⟩
  · rw [hi] at h
    rcases hop with rfl | rfl | rfl | rfl | rfl | rfl <;> cases h <;> exact ⟨_, rfl⟩

theorem Evaluation.produce_truth {line : Nat} {store : Store} :
    produce line (.ok (.truth p)) store = some (.normal (.ofBool p), store) :=
  rfl

theorem Evaluation.produce_error {line : Nat} {fault : Fault} {store : Store} :
    produce line (.error fault) store = some (.failed ⟨fault, line⟩, store) :=
  rfl

/-- The laws of comparing objects. -/
structure Object.ComparisonLaws (a b c : Object) : Prop where
  /-- Equality is at fault with operands of two kinds, which are named, and with no others. -/
  fault_iff : ∀ op ∈ [BinaryOp.equal, .notEqual], ∀ line store failure after,
    produce line (op.apply a b) store = some (.failed failure, after) ↔
      a.kind ≠ b.kind ∧ failure = ⟨.typeMismatch a.kind op b.kind, line⟩ ∧ after = store
  /-- Of operands of one kind `==` gives the same in either order, and `!=` the opposite. -/
  decided : a.kind = b.kind → ∃ p, BinaryOp.equal.apply a b = .ok (.truth p) ∧
    BinaryOp.equal.apply b a = .ok (.truth p) ∧ BinaryOp.notEqual.apply a b = .ok (.truth !p)
  refl_iff : BinaryOp.equal.Holds a a ↔ a.value ≠ .number .nan
  trans : BinaryOp.equal.Holds a b → BinaryOp.equal.Holds b c → BinaryOp.equal.Holds a c
  order : ∀ x y, a.value = .number x → b.value = .number y → BinaryOp.OrderLaws a b x y
  /-- What a comparison gives is one of the two shared objects, and nothing is made for it. -/
  shared : ∀ op ∈ BinaryOp.comparisons, ∀ line store object after,
    produce line (op.apply a b) store = some (.normal object, after) →
      (object = .ofBool true ∨ object = .ofBool false) ∧ after = store

/-- **The laws of comparison hold of all objects.** -/
theorem Object.comparisonLaws (a b c : Object) : ComparisonLaws a b c := by
  constructor
  case fault_iff =>
    intro op hop line store failure after
    by_cases hk : a.kind = b.kind
    · have ht : ∃ p, op.apply a b = .ok (.truth p) := by
        obtain ⟨heq, hne⟩ := BinaryOp.apply_equal hk
        simp only [List.mem_cons, List.not_mem_nil, or_false] at hop
        rcases hop with rfl | rfl
        · exact ⟨_, heq⟩
        · exact ⟨_, hne⟩
      obtain ⟨p, hp⟩ := ht
      rw [hp, produce_truth]
      simp [hk]
    · rw [BinaryOp.apply_of_kind_ne hk, produce_error]
      simp [hk, eq_comm]
  case decided =>
    intro hk
    obtain ⟨heq, hne⟩ := BinaryOp.apply_equal hk
    have hc : decide (b.Coincides a) = decide (a.Coincides b) := decide_eq_decide.mpr ⟨Coincides.symm, Coincides.symm⟩
    exact ⟨_, heq, hc ▸ (BinaryOp.apply_equal hk.symm).1, hne⟩
  case refl_iff => rw [BinaryOp.holds_equal_iff rfl, coincides_self_iff]
  case trans =>
    intro h h'
    have hab := BinaryOp.kind_eq_of_ok h
    have hbc := BinaryOp.kind_eq_of_ok h'
    rw [BinaryOp.holds_equal_iff hab] at h
    rw [BinaryOp.holds_equal_iff hbc] at h'
    exact (BinaryOp.holds_equal_iff (hab.trans hbc)).mpr (h.trans h')
  case order => exact fun x y ha hb => BinaryOp.orderLaws ha hb
  case shared =>
    intro op hop line store object after h
    cases hr : op.apply a b with
    | error fault =>
      rw [hr, produce_error] at h
      cases h
    | ok produced =>
      obtain ⟨p, rfl⟩ := BinaryOp.exists_truth_of_ok hop hr
      rw [hr, produce_truth] at h
      cases h
      cases p <;> simp

/-- The two zeros are equal, a not-a-number stands in no order to them, and a number and a string are not compared. -/
theorem Object.comparisonLaws_zeros :
    let zero : Object := ⟨3, .number (.signedZero false)⟩
    let opposite : Object := ⟨4, .number (.signedZero true)⟩
    let undefined : Object := ⟨5, .number .nan⟩
    let text : Object := ⟨6, .string "0"⟩
    (∃ p, BinaryOp.equal.apply zero opposite = .ok (.truth p) ∧ BinaryOp.equal.apply opposite zero = .ok (.truth p) ∧
        BinaryOp.notEqual.apply zero opposite = .ok (.truth !p)) ∧
      BinaryOp.equal.Holds zero zero ∧
      (∃! op, op ∈ [BinaryOp.less, .equal, .greater] ∧ op.Holds zero opposite) ∧
      (∀ op ∈ [BinaryOp.less, .equal, .greater], ¬ op.Holds zero undefined) ∧
      produce 2 (BinaryOp.equal.apply zero text) .empty =
        some (.failed ⟨.typeMismatch .number .equal .string, 2⟩, .empty) ∧
      (Object.ofBool false = .ofBool true ∨ Object.ofBool false = .ofBool false) := by
  intro zero opposite undefined text
  have laws := comparisonLaws zero opposite zero
  have numbers := (comparisonLaws zero undefined zero).order _ _ rfl rfl
  have mixed := (comparisonLaws zero text zero).fault_iff .equal (by simp)
  refine ⟨laws.decided rfl, laws.trans rfl rfl, (laws.order _ _ rfl rfl).exactly_one ?_ ?_,
    numbers.none_of_nan ?_, (mixed 2 .empty _ _).mpr ⟨?_, rfl, rfl⟩, ?_⟩
  · decide
  · decide
  · exact .inr rfl
  · decide
  · exact (laws.shared .less (by decide) 1 .empty _ _ rfl).1

end TinyScript
