import TinyScript.Object.Render
import TinyScript.Text.Fingerprint

/-! # The order of texts is the order of their bytes

Texts are compared by code points, the first difference deciding. UTF-8 spreads a code point over one to four bytes in
such a way that a greater one has the greater bytes, the first difference deciding again, whatever stands behind them.
So **a text comes before another exactly if its bytes do** (`Text.bytes_lt_bytes_iff`), and the entries of a hash are in
the order of their bytes (`Text.entryLE_iff`).
-/

namespace TinyScript.Text

theorem ofNat_lt_ofNat_iff {m n : Nat} (hm : m < 256) (hn : n < 256) : UInt8.ofNat m < UInt8.ofNat n ↔ m < n := by
  rw [UInt8.lt_iff_toNat_lt, UInt8.toNat_ofNat_of_lt' hm, UInt8.toNat_ofNat_of_lt' hn]

theorem ofNat_eq_ofNat_iff {m n : Nat} (hm : m < 256) (hn : n < 256) : UInt8.ofNat m = UInt8.ofNat n ↔ m = n := by
  rw [← UInt8.toNat_inj, UInt8.toNat_ofNat_of_lt' hm, UInt8.toNat_ofNat_of_lt' hn]

/-- A code point below 128 is one byte. Of any other the last bytes hold six bits each, and the first one says how many
follow and holds what is left. -/
theorem utf8EncodeChar_cases (c : Char) :
    (c.toNat ≤ 0x7F ∧ String.utf8EncodeChar c = [.ofNat c.toNat]) ∨
    (0x7F < c.toNat ∧ c.toNat ≤ 0x7FF ∧
      String.utf8EncodeChar c = [.ofNat (c.toNat / 64 + 192), .ofNat (c.toNat % 64 + 128)]) ∨
    (0x7FF < c.toNat ∧ c.toNat ≤ 0xFFFF ∧ String.utf8EncodeChar c =
      [.ofNat (c.toNat / 64 / 64 + 224), .ofNat (c.toNat / 64 % 64 + 128), .ofNat (c.toNat % 64 + 128)]) ∨
    (0xFFFF < c.toNat ∧ c.toNat < 0x110000 ∧ String.utf8EncodeChar c =
      [.ofNat (c.toNat / 64 / 64 / 64 + 240), .ofNat (c.toNat / 64 / 64 % 64 + 128),
        .ofNat (c.toNat / 64 % 64 + 128), .ofNat (c.toNat % 64 + 128)]) := by
  have hv : c.toNat < 0xD800 ∨ 0xDFFF < c.toNat ∧ c.toNat < 0x110000 := c.valid
  have he : String.utf8EncodeChar c =
      if c.toNat ≤ 0x7F then [.ofNat c.toNat]
      else if c.toNat ≤ 0x7FF then [.ofNat (c.toNat / 64 % 32 + 192), .ofNat (c.toNat % 64 + 128)]
      else if c.toNat ≤ 0xFFFF then
        [.ofNat (c.toNat / 4096 % 16 + 224), .ofNat (c.toNat / 64 % 64 + 128), .ofNat (c.toNat % 64 + 128)]
      else
        [.ofNat (c.toNat / 262144 % 8 + 240), .ofNat (c.toNat / 4096 % 64 + 128), .ofNat (c.toNat / 64 % 64 + 128),
          .ofNat (c.toNat % 64 + 128)] := rfl
  generalize c.toNat = n at *
  rw [he]
  by_cases h1 : n ≤ 0x7F
  · rw [if_pos h1]
    exact .inl ⟨h1, rfl⟩
  by_cases h2 : n ≤ 0x7FF
  · have hdiv : n / 64 % 32 = n / 64 := by omega
    rw [if_neg h1, if_pos h2, hdiv]
    exact .inr (.inl ⟨by omega, h2, rfl⟩)
  by_cases h3 : n ≤ 0xFFFF
  · have hdiv : n / 4096 % 16 = n / 64 / 64 := by omega
    rw [if_neg h1, if_neg h2, if_pos h3, hdiv]
    exact .inr (.inr (.inl ⟨by omega, h3, rfl⟩))
  · have hdiv : n / 262144 % 8 = n / 64 / 64 / 64 := by omega
    have hdiv' : n / 4096 = n / 64 / 64 := by omega
    rw [if_neg h1, if_neg h2, if_neg h3, hdiv, hdiv']
    exact .inr (.inr (.inr ⟨by omega, by omega, rfl⟩))

/-- The bytes of a greater code point are greater, whatever follows either. -/
theorem utf8EncodeChar_append_lt {c d : Char} (h : c < d) (rest rest' : List UInt8) :
    String.utf8EncodeChar c ++ rest < String.utf8EncodeChar d ++ rest' := by
  have hlt : c.toNat < d.toNat := h
  rcases utf8EncodeChar_cases c with ⟨_, hc⟩ | ⟨_, _, hc⟩ | ⟨_, _, hc⟩ | ⟨_, _, hc⟩ <;>
    rcases utf8EncodeChar_cases d with ⟨_, hd⟩ | ⟨_, _, hd⟩ | ⟨_, _, hd⟩ | ⟨_, _, hd⟩ <;>
      rw [hc, hd] <;> clear hc hd <;>
      simp (disch := omega) only [List.cons_append, List.nil_append, List.cons_lt_cons_iff, ofNat_lt_ofNat_iff,
        ofNat_eq_ofNat_iff] <;>
      omega

/-- Of two texts with a first character that differs, the bytes of that character decide. -/
theorem flatMap_utf8EncodeChar_lt {cs ds : List Char} (h : cs < ds) :
    cs.flatMap String.utf8EncodeChar < ds.flatMap String.utf8EncodeChar := by
  induction cs generalizing ds with
  | nil =>
    cases ds with
    | nil => cases h
    | cons d ds =>
      rw [List.flatMap_nil, List.flatMap_cons]
      cases he : String.utf8EncodeChar d with
      | nil => exact absurd he (by simp)
      | cons byte bytes => exact List.nil_lt_cons _ _
  | cons c cs ih =>
    cases ds with
    | nil => cases h
    | cons d ds =>
      rw [List.flatMap_cons, List.flatMap_cons]
      rcases List.cons_lt_cons_iff.mp h with hlt | ⟨rfl, hlt⟩
      · exact utf8EncodeChar_append_lt hlt _ _
      · exact List.append_left_lt (ih hlt)

variable {s t : String}

/-- A text can be told from its bytes. -/
theorem bytes_inj : bytes s = bytes t ↔ s = t := by
  refine ⟨fun h => ?_, congrArg bytes⟩
  have he : (bytes s).toByteArray = (bytes t).toByteArray := congrArg List.toByteArray h
  rw [← String.toByteArray_inj, ← String.utf8Encode_toList, ← String.utf8Encode_toList]
  exact he

/-- **A text comes before another exactly if its bytes do.** -/
theorem bytes_lt_bytes_iff : bytes s < bytes t ↔ s < t := by
  constructor
  · intro h
    by_cases hlt : s < t
    · exact hlt
    by_cases he : s = t
    · subst he
      exact absurd h (List.lt_irrefl _)
    · have hgt : t < s := Std.lt_of_le_of_ne (String.not_lt.mp hlt) (Ne.symm he)
      exact absurd h (List.lt_asymm (flatMap_utf8EncodeChar_lt hgt))
  · exact fun h => flatMap_utf8EncodeChar_lt h

/-- Entries are in order if their keys are or, where these are the same, their values: byte for byte. -/
theorem entryLE_iff {a b : String × String} :
    entryLE a b = true ↔ bytes a.1 < bytes b.1 ∨ bytes a.1 = bytes b.1 ∧ bytes a.2 ≤ bytes b.2 := by
  rw [← List.not_lt, bytes_lt_bytes_iff, bytes_lt_bytes_iff, bytes_inj, String.not_lt]
  simp [entryLE]

end TinyScript.Text
