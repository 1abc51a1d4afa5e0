import TinyScript.Proofs.Equality.Identity
import TinyScript.Proofs.Number.Words
import TinyScript.Text.Fx

/-! # Keys agree with equality

A hash finds its entries by keys, and a program compares objects with `==`. The two are defined apart: keys by kind
and content, `==` by the order of numbers, by the text of strings and by identity. **Two objects share a key exactly
if they are of one kind that gives keys and `==` holds of them** (`Object.sharesKey_iff_equal`), as long as no two of the
strings have one fingerprint. So the two zeros share a key and a not-a-number has none.
-/

namespace TinyScript

/-- A key is its kind and its word. -/
theorem Key.eq_iff {k l : Key} : k = l ↔ k.kind = l.kind ∧ k.word = l.word := by
  refine ⟨fun h => h ▸ ⟨rfl, rfl⟩, fun ⟨hk, hw⟩ => ?_⟩
  cases k with
  | number bits =>
    cases l with
    | number bits' => exact congrArg Key.number hw
    | boolean | string => cases hk
  | boolean value =>
    cases l with
    | boolean value' =>
      cases value <;> cases value' <;> first | rfl | cases hw
    | number | string => cases hk
  | string fingerprint =>
    cases l with
    | string fingerprint' => exact congrArg Key.string (UInt64.toNat_inj.mp hw)
    | number | boolean => cases hk

section

variable [ByteHash]

/-- Two values that give keys, and give the same one. -/
def Value.SharesKey (value other : Value) : Prop :=
  ∃ key, value.key? = some key ∧ other.key? = some key

namespace Value

variable {x y : Single} {s : Bool} {rank : Nat}

/-- A key is of the kind of the value that gives it. -/
theorem kind_of_key? {value : Value} {key : Key} (h : value.key? = some key) : key.kind = value.kind := by
  unfold key? at h
  split at h <;> cases h <;> rfl

/-- The key of a number is its word, but that both zeros have the word of the positive one. -/
theorem key?_number (h : x.signRank? = some (s, rank)) :
    (Value.number x).key? = some (.number (if rank = 0 then 0 else Single.signBit s + rank)) := by
  have hz := Single.equal_zero_iff h
  have hb := Single.bits_of_signRank? h
  have hk : (Value.number x).key? = some (.number (if x.equal .zero then 0 else x.bits)) := by
    cases x with
    | nan => cases h
    | infinite | finite => rfl
  rw [hk, hb]
  simp only [hz]

/-- A not-a-number gives no key, and every other number gives one. -/
theorem key?_number_eq_none_iff : (Value.number x).key? = none ↔ x = .nan := by
  cases x <;> simp [key?]

/-- Values that give keys share one exactly if these are equal. -/
theorem sharesKey_iff_eq {value other : Value} {k l : Key} (hk : value.key? = some k) (hl : other.key? = some l) :
    value.SharesKey other ↔ k = l := by
  unfold SharesKey
  rw [hk, hl]
  constructor
  · rintro ⟨key, h, h'⟩
    cases h
    cases h'
    rfl
  · rintro rfl
    exact ⟨k, rfl, rfl⟩

/-- A key tells the kind of what gives it. -/
theorem kind_eq_of_sharesKey {value other : Value} (h : value.SharesKey other) : value.kind = other.kind := by
  obtain ⟨key, hk, hl⟩ := h
  exact (kind_of_key? hk).symm.trans (kind_of_key? hl)

/-- Numbers share a key exactly if they are equal. -/
theorem sharesKey_number_iff : (Value.number x).SharesKey (.number y) ↔ x.equal y = true := by
  have none_of_nan : ∀ {z : Single} {key : Key}, z.signRank? = none → (Value.number z).key? ≠ some key := by
    intro z key hz hk
    rw [key?_number_eq_none_iff.mpr (Single.signRank?_eq_none_iff.mp hz)] at hk
    cases hk
  rw [Single.equal_iff]
  cases hx : x.signRank? with
  | none =>
    constructor
    · rintro ⟨_, hk, _⟩
      exact absurd hk (none_of_nan hx)
    · rintro ⟨_, _, _, ⟨⟩, _⟩
  | some p =>
    cases hy : y.signRank? with
    | none =>
      constructor
      · rintro ⟨_, _, hl⟩
        exact absurd hl (none_of_nan hy)
      · rintro ⟨_, _, _, _, ⟨⟩, _⟩
    | some q =>
      obtain ⟨s, a⟩ := p
      obtain ⟨t, b⟩ := q
      have ha := Single.rank_le_of_signRank? hx
      have hb := Single.rank_le_of_signRank? hy
      rw [sharesKey_iff_eq (key?_number hx) (key?_number hy), Key.number.injEq]
      constructor
      · intro he
        -- A rank takes the lower 31 bits of a word, so that words are equal where signs and ranks are.
        have hr : b = a ∧ (s = t ∨ a = 0) := by
          unfold Single.infinityRank at ha hb
          unfold Single.signBit at he
          cases s <;> cases t <;> simp at he ⊢ <;> split at he <;> split at he <;> omega
        exact ⟨s, t, a, rfl, hr.1 ▸ rfl, hr.2⟩
      · rintro ⟨_, _, _, ⟨⟩, ⟨⟩, rfl | rfl⟩
        · rfl
        · rfl

end Value

/-- Keys are of three kinds, so objects of these kinds alone share them. -/
theorem Object.exists_kind_of_sharesKey {a b : Object} (h : a.value.SharesKey b.value) :
    ∃ kind ∈ [Value.Kind.number, .boolean, .string], a.kind = kind ∧ b.kind = kind := by
  refine ⟨a.kind, ?_, rfl, (Value.kind_eq_of_sharesKey h).symm⟩
  obtain ⟨key, hk, -⟩ := h
  rw [show a.kind = key.kind from (Value.kind_of_key? hk).symm]
  cases key <;> simp [Key.kind]

/-- Objects of one kind that gives keys share a key exactly if `==` holds of them. -/
theorem Object.sharesKey_iff_of_kind {a b : Object} {kind : Value.Kind}
    (hm : kind ∈ [Value.Kind.number, .boolean, .string]) (hka : a.kind = kind) (hkb : b.kind = kind)
    (ha : ∀ value, a.value = .boolean value → a = .ofBool value)
    (hb : ∀ value, b.value = .boolean value → b = .ofBool value)
    (hs : ∀ s t, a.value = .string s → b.value = .string t → Text.fingerprint s = Text.fingerprint t → s = t) :
    a.value.SharesKey b.value ↔ BinaryOp.equal.apply a b = .ok (.truth true) := by
  obtain ⟨id, value⟩ := a
  obtain ⟨id', value'⟩ := b
  simp only [List.mem_cons, List.not_mem_nil, or_false] at hm
  rcases hm with rfl | rfl | rfl
  · cases value with
    | number x =>
      cases value' with
      | number y =>
        have he : BinaryOp.equal.apply ⟨id, .number x⟩ ⟨id', .number y⟩ = .ok (.truth (x.equal y)) := rfl
        rw [BinaryOp.apply_eq_true_iff he]
        exact Value.sharesKey_number_iff
      | _ => cases hkb
    | _ => cases hka
  · cases value with
    | boolean p =>
      cases value' with
      | boolean q =>
        rw [ha p rfl, hb q rfl, BinaryOp.apply_eq_true_iff (BinaryOp.apply_ofBool p q).1, beq_iff_eq]
        show (Value.boolean p).SharesKey (.boolean q) ↔ p = q
        rw [Value.sharesKey_iff_eq rfl rfl, Key.boolean.injEq]
      | _ => cases hkb
    | _ => cases hka
  · cases value with
    | string s =>
      cases value' with
      | string t =>
        have he : BinaryOp.equal.apply ⟨id, .string s⟩ ⟨id', .string t⟩ = .ok (.truth (s == t)) := rfl
        rw [BinaryOp.apply_eq_true_iff he, beq_iff_eq]
        show (Value.string s).SharesKey (.string t) ↔ s = t
        rw [Value.sharesKey_iff_eq rfl rfl, Key.string.injEq]
        exact ⟨hs s t rfl rfl, congrArg Text.fingerprint⟩
      | _ => cases hkb
    | _ => cases hka

/-- **Objects share a key exactly if they are both numbers, both truth values or both strings and `==` holds of
them**, where truth values are the shared ones and the fingerprints of two strings do not collide. A key is told
from others by the kind of its value and by its word, so objects of two kinds never share one. The two zeros give
one key, no word of a not-a-number gives one, and numbers of two other words never share one. -/
theorem Object.sharesKey_iff_equal (a b : Object) :
    ((∀ value, a.value = .boolean value → a = .ofBool value) →
      (∀ value, b.value = .boolean value → b = .ofBool value) →
      (∀ s t, a.value = .string s → b.value = .string t → Text.fingerprint s = Text.fingerprint t → s = t) →
      (a.value.SharesKey b.value ↔
        (∃ kind ∈ [Value.Kind.number, .boolean, .string], a.kind = kind ∧ b.kind = kind) ∧
          BinaryOp.equal.apply a b = .ok (.truth true))) ∧
    (∀ k l, a.value.key? = some k → b.value.key? = some l → (k = l ↔ a.kind = b.kind ∧ k.word = l.word)) ∧
    (Value.number (.signedZero false)).SharesKey (.number (.signedZero true)) ∧
    (∀ word, (Value.number (.ofWord word)).key? = none ↔ Single.IsNanWord word) ∧
    ∀ word other, word ≠ other → (Value.number (.ofWord word)).SharesKey (.number (.ofWord other)) →
      ∃ negative, Single.ofWord word = .signedZero negative ∧ Single.ofWord other = .signedZero !negative := by
  refine ⟨fun ha hb hs => ⟨fun h => ?_, ?_⟩, fun k l hk hl => ?_, ?_, fun word => ?_, fun word other hne h => ?_⟩
  · obtain ⟨kind, hm, hka, hkb⟩ := exists_kind_of_sharesKey h
    exact ⟨⟨kind, hm, hka, hkb⟩, (sharesKey_iff_of_kind hm hka hkb ha hb hs).mp h⟩
  · rintro ⟨⟨kind, hm, hka, hkb⟩, he⟩
    exact (sharesKey_iff_of_kind hm hka hkb ha hb hs).mpr he
  · rw [Key.eq_iff, Value.kind_of_key? hk, Value.kind_of_key? hl]
    rfl
  · exact Value.sharesKey_number_iff.mpr rfl
  · rw [Value.key?_number_eq_none_iff, Single.ofWord_eq_nan_iff]
  · exact Single.exists_signedZero_of_equal hne (Value.sharesKey_number_iff.mp h)

end

/-- Two strings with different fingerprints, and the two words that stand for zeros. -/
theorem Object.sharesKey_iff_equal_strings :
    let a : Object := ⟨3, .string "one"⟩
    let b : Object := ⟨4, .string "two"⟩
    let word : BitVec 32 := 0x00000000
    let other : BitVec 32 := 0x80000000
    (∀ value, a.value = .boolean value → a = .ofBool value) ∧
      (∀ value, b.value = .boolean value → b = .ofBool value) ∧
      (∀ s t, a.value = .string s → b.value = .string t → Text.fingerprint s = Text.fingerprint t → s = t) ∧
      word ≠ other ∧ (Value.number (.ofWord word)).SharesKey (.number (.ofWord other)) ∧
      (a.value.SharesKey b.value ↔
        (∃ kind ∈ [Value.Kind.number, .boolean, .string], a.kind = kind ∧ b.kind = kind) ∧
          BinaryOp.equal.apply a b = .ok (.truth true)) ∧
      (Key.string (Text.fingerprint "one") = .string (Text.fingerprint "two") ↔
        a.kind = b.kind ∧ (Text.fingerprint "one").toNat = (Text.fingerprint "two").toNat) ∧
      ∃ negative, Single.ofWord word = .signedZero negative ∧ Single.ofWord other = .signedZero !negative := by
  intro a b word other
  obtain ⟨agree, keys, _, _, words⟩ := sharesKey_iff_equal a b
  have ha : ∀ value, a.value = .boolean value → a = .ofBool value := fun _ h => nomatch h
  have hb : ∀ value, b.value = .boolean value → b = .ofBool value := fun _ h => nomatch h
  have hs : ∀ s t, a.value = .string s → b.value = .string t →
      Text.fingerprint s = Text.fingerprint t → s = t := by
    intro s t hs ht he
    cases hs
    cases ht
    exact absurd he (by decide +kernel)
  have hne : word ≠ other := by decide
  have hw : (Value.number (.ofWord word)).SharesKey (.number (.ofWord other)) :=
    Value.sharesKey_number_iff.mpr (by decide)
  exact ⟨ha, hb, hs, hne, hw, agree ha hb hs, keys _ _ rfl rfl, words word other hne hw⟩

end TinyScript
