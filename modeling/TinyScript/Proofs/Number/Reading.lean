import TinyScript.Number.Shortest

/-! # The text of a number is read as the number

A number is written as a decimal that reads back, and that decimal as digits with an optional fraction. What
is read off the digits need not be the decimal they were written from, as zeros move between the digits and
the exponent; but reading rounds a quotient, and **equal quotients round alike** (`Single.ofRatio_eq_of_mul_eq`).
So the text of every finite number that is not negative is read as that number (`Single.read?_render`).
-/

namespace TinyScript

namespace Single

/-! ## Rounding -/

/-- Rounding sees a quotient, not the numbers it is of. -/
theorem roundHalfEven_mul_right (num den : Nat) {factor : Nat} (h : 0 < factor) :
    roundHalfEven (num * factor) (den * factor) = roundHalfEven num den := by
  have hm : 2 * (num * factor % (den * factor)) = 2 * (num % den) * factor := by
    rw [Nat.mul_mod_mul_right, Nat.mul_assoc]
  unfold roundHalfEven
  simp only [hm, Nat.mul_div_mul_right _ _ h, Nat.mul_lt_mul_right h]

/-- A fraction need not be in lowest terms. -/
theorem ofRatio_mul_right (negative : Bool) (num den : Nat) {factor : Nat} (h : 0 < factor) :
    ofRatio negative (num * factor) (den * factor) = ofRatio negative num den := by
  unfold ofRatio rankOfRatio
  simp only [Nat.mul_div_mul_right _ _ h, Nat.mul_right_comm den factor, roundHalfEven_mul_right _ _ h]

/-- Equal quotients round alike. -/
theorem ofRatio_eq_of_mul_eq (negative : Bool) {num den num' den' : Nat} (hd : 0 < den) (hd' : 0 < den')
    (h : num * den' = num' * den) : ofRatio negative num den = ofRatio negative num' den' := by
  rw [← ofRatio_mul_right negative num den hd', h, Nat.mul_comm den, ofRatio_mul_right negative num' den' hd]

/-- Less than half a unit rounds to zero. -/
theorem ofRatio_eq_signedZero (negative : Bool) {num den : Nat} (h : 2 * num < den) :
    ofRatio negative num den = signedZero negative := by
  have hq : num / den = 0 := Nat.div_eq_of_lt (by omega)
  have hr : rankOfRatio num den = 0 := by
    unfold rankOfRatio roundHalfEven
    rw [hq]
    simp only [Nat.log2_zero, Nat.zero_sub, Nat.pow_eq, Nat.pow_zero, Nat.mul_one, hq, Nat.zero_mul]
    rw [Nat.mod_eq_of_lt (by omega), if_pos h]
  unfold ofRatio
  rw [hr]
  rfl

/-- Whole numbers are rounded to themselves. -/
theorem roundHalfEven_mul_self (n : Nat) {den : Nat} (h : 0 < den) : roundHalfEven (n * den) den = n := by
  unfold roundHalfEven
  simp only [Nat.mul_div_cancel n h, Nat.mul_mod_left, Nat.mul_zero, if_pos h]

/-- The value of a rank is rounded to that rank. -/
theorem rankOfRatio_unitsOfRank (rank : Nat) : rankOfRatio (unitsOfRank rank) 1 = rank := by
  unfold rankOfRatio unitsOfRank
  simp only [Nat.div_one, Nat.one_mul, Nat.pow_eq]
  split
  · next h =>
    have hl : rank.log2 - 23 = 0 := by
      rcases Nat.eq_zero_or_pos rank with rfl | hp
      · rfl
      · have : rank.log2 < 23 := (Nat.log2_lt (by omega)).mpr h
        omega
    rw [hl, Nat.zero_mul, Nat.zero_add]
    simpa using roundHalfEven_mul_self rank Nat.one_pos
  · next h =>
    -- the digits of a rank past the first block fill exactly 24 binary places
    have hb : 1 ≤ rank / blockSize := (Nat.le_div_iff_mul_le (by decide)).mpr (by omega)
    have hm : rank % blockSize < blockSize := Nat.mod_lt _ (by decide)
    have hs : blockSize = 2 ^ 23 := by decide
    have hl : ((blockSize + rank % blockSize) * 2 ^ (rank / blockSize - 1)).log2 =
        23 + (rank / blockSize - 1) := by
      have hp : 0 < 2 ^ (rank / blockSize - 1) := Nat.two_pow_pos _
      rw [Nat.log2_eq_iff (Nat.ne_of_gt (Nat.mul_pos (by omega) hp)), Nat.add_right_comm, Nat.pow_add,
        Nat.pow_add]
      exact ⟨Nat.mul_le_mul_right _ (by omega), Nat.mul_lt_mul_of_pos_right (by omega) hp⟩
    rw [hl, Nat.add_sub_cancel_left, roundHalfEven_mul_self _ (Nat.two_pow_pos _), Nat.sub_mul]
    have hd : rank / blockSize * blockSize + rank % blockSize = rank := Nat.div_add_mod' rank blockSize
    have hle : 1 * blockSize ≤ rank / blockSize * blockSize := Nat.mul_le_mul_right _ hb
    omega

/-- A number that is exact already is not rounded. -/
theorem ofRatio_unitsOfRank (negative : Bool) (rank : Fin infinityRank) :
    ofRatio negative (unitsOfRank rank) 1 = .finite negative rank := by
  unfold ofRatio ofRank
  rw [rankOfRatio_unitsOfRank, dif_pos rank.isLt]

end Single

/-! ## Decimals -/

namespace Decimal

/-- A decimal that is not too large is rounded as a quotient. -/
theorem toSingle_eq_ofRatio {d : Decimal} (h : d.exponent < 39) :
    d.toSingle = .ofRatio d.negative (d.digits * Nat.pow 10 d.exponent.toNat * Single.unitsPerOne)
      (Nat.pow 10 (-d.exponent).toNat) := by
  obtain ⟨negative, digits, exponent⟩ := d
  unfold toSingle
  dsimp only at h ⊢
  split
  · next hz =>
    refine (Single.ofRatio_eq_signedZero _ ?_).symm
    rw [hz, Nat.zero_mul, Nat.zero_mul]
    exact Nat.pow_pos (by decide)
  split
  · omega
  split
  · next hz _ hs =>
    -- `digits * 2 ^ 150 < 2 ^ (log2 digits + 151) ≤ 10 ^ (log2 digits + 48)`
    refine (Single.ofRatio_eq_signedZero _ ?_).symm
    have he : exponent.toNat = 0 := by omega
    have hu : Single.unitsPerOne = 2 ^ 149 := rfl
    have hd : digits < 2 ^ (digits.log2 + 1) := Nat.lt_log2_self
    rw [he, hu]
    show 2 * (digits * 1 * 2 ^ 149) < 10 ^ (-exponent).toNat
    rw [Nat.mul_one]
    calc 2 * (digits * 2 ^ 149) = digits * 2 ^ 150 := by omega
      _ < 2 ^ (digits.log2 + 1) * 2 ^ 150 := Nat.mul_lt_mul_of_pos_right hd (by decide)
      _ = 2 ^ digits.log2 * 2 ^ 151 := by
        rw [Nat.pow_succ]
        omega
      _ ≤ 10 ^ digits.log2 * 10 ^ 48 := Nat.mul_le_mul (Nat.pow_le_pow_left (by decide) _) (by decide)
      _ = 10 ^ (digits.log2 + 48) := (Nat.pow_add _ _ _).symm
      _ ≤ 10 ^ (-exponent).toNat := Nat.pow_le_pow_right (by decide) (by omega)
  · rfl

/-- Zeros may stand with the digits or in the exponent. -/
theorem toSingle_mul_pow (negative : Bool) (digits count : Nat) {exponent : Int} (h : exponent + count < 39) :
    (Decimal.mk negative (digits * Nat.pow 10 count) exponent).toSingle =
      (Decimal.mk negative digits (exponent + count)).toSingle := by
  rw [toSingle_eq_ofRatio (by simp only; omega), toSingle_eq_ofRatio h]
  refine Single.ofRatio_eq_of_mul_eq negative (Nat.pow_pos (by decide)) (Nat.pow_pos (by decide)) ?_
  have hp : count + exponent.toNat + (-(exponent + count)).toNat =
      (exponent + count).toNat + (-exponent).toNat := by omega
  have hq : 10 ^ count * 10 ^ exponent.toNat * 10 ^ (-(exponent + count)).toNat =
      10 ^ (exponent + count).toNat * 10 ^ (-exponent).toNat := by
    rw [← Nat.pow_add, ← Nat.pow_add, ← Nat.pow_add, hp]
  calc digits * 10 ^ count * 10 ^ exponent.toNat * Single.unitsPerOne * 10 ^ (-(exponent + count)).toNat
    _ = digits * (10 ^ count * 10 ^ exponent.toNat * 10 ^ (-(exponent + count)).toNat) * Single.unitsPerOne := by
      ac_rfl
    _ = digits * (10 ^ (exponent + count).toNat * 10 ^ (-exponent).toNat) * Single.unitsPerOne := by rw [hq]
    _ = digits * 10 ^ (exponent + count).toNat * Single.unitsPerOne * 10 ^ (-exponent).toNat := by ac_rfl

/-! ## Digits -/

/-- Digits with a fraction, which has a point before it unless it is empty. -/
def spelling (whole fraction : List Char) : List Char :=
  whole ++ if fraction = [] then [] else '.' :: fraction

/-- A spelling of a number that is not negative. -/
structure Spelled (text : String) (whole fraction : List Char) : Prop where
  text_eq : text.toList = spelling whole fraction
  whole_ne : whole ≠ []
  whole_digits : ∀ c ∈ whole, c.isDigit = true
  fraction_digits : ∀ c ∈ fraction, c.isDigit = true

/-- The digits of a number before zeros that may be left out at its end. -/
theorem exists_replicate_zero (cs : List Char) :
    ∃ count, cs = (cs.reverse.dropWhile (· == '0')).reverse ++ List.replicate count '0' := by
  refine ⟨(cs.reverse.takeWhile (· == '0')).length, ?_⟩
  have hz : (cs.reverse.takeWhile (· == '0')).reverse =
      List.replicate (cs.reverse.takeWhile (· == '0')).length '0' := by
    refine List.eq_replicate_iff.mpr ⟨List.length_reverse, fun c hc => ?_⟩
    have := List.all_takeWhile (p := (· == '0')) (l := cs.reverse)
    simpa using List.all_eq_true.mp this c (List.mem_reverse.mp hc)
  rw [← hz, ← List.reverse_append, List.takeWhile_append_dropWhile, List.reverse_reverse]

/-- Leading zeros do not count, and digits are read as the number they were written from. -/
theorem ofDigitChars_padded (init n : Nat) {places : Nat} (h : (Nat.toDigits 10 n).length ≤ places) :
    Nat.ofDigitChars 10 (List.replicate (places - (Nat.toDigits 10 n).length) '0' ++ Nat.toDigits 10 n) init =
      Nat.pow 10 places * init + n := by
  rw [Nat.ofDigitChars_append, Nat.ofDigitChars_replicate_zero, Nat.ofDigitChars_eq_ofDigitChars_zero,
    Nat.ofDigitChars_ten_toDigits, ← Nat.mul_assoc, ← Nat.pow_add]
  congr 3
  omega

/-- Zeros at the end of digits are a power of ten. -/
theorem natOfDigits_append_zeros (cs : List Char) (count : Nat) :
    natOfDigits (cs ++ List.replicate count '0') = natOfDigits cs * Nat.pow 10 count := by
  show Nat.ofDigitChars 10 (cs ++ List.replicate count '0') 0 = Nat.ofDigitChars 10 cs 0 * 10 ^ count
  rw [Nat.ofDigitChars_append, Nat.ofDigitChars_replicate_zero, Nat.mul_comm]

theorem isDigit_of_mem_toDigits {n : Nat} {c : Char} (h : c ∈ Nat.toDigits 10 n) : c.isDigit = true :=
  Nat.isDigit_of_mem_toDigits (by decide) (by decide) h

/-- What is written of the places after the point: their digits but the zeros at the end. -/
theorem exists_fraction (digits : Nat) {places : Nat} (hp : 0 < places) :
    let fraction := Nat.toDigits 10 (digits % Nat.pow 10 places)
    let padded := List.replicate (places - fraction.length) '0' ++ fraction
    let kept := (padded.reverse.dropWhile (· == '0')).reverse
    (∀ c ∈ kept, c.isDigit = true) ∧ ∃ count, places = kept.length + count ∧
      natOfDigits (Nat.toDigits 10 (digits / Nat.pow 10 places) ++ kept) * Nat.pow 10 count = digits := by
  intro fraction padded kept
  obtain ⟨count, hc⟩ : ∃ count, padded = kept ++ List.replicate count '0' := exists_replicate_zero padded
  have hlen : fraction.length ≤ places :=
    (Nat.length_toDigits_le_iff (by decide) hp).mpr (Nat.mod_lt _ (Nat.pow_pos (by decide)))
  refine ⟨fun c hm => ?_, count, ?_, ?_⟩
  · have hm : c ∈ padded := hc ▸ List.mem_append_left _ hm
    rcases List.mem_append.mp hm with hm | hm
    · rw [List.eq_of_mem_replicate hm]
      rfl
    · exact isDigit_of_mem_toDigits hm
  · have hl : padded.length = places := by
      rw [List.length_append, List.length_replicate]
      omega
    rw [← hl, hc, List.length_append, List.length_replicate]
  · rw [← natOfDigits_append_zeros, List.append_assoc, ← hc]
    show Nat.ofDigitChars 10 (_ ++ padded) 0 = digits
    rw [Nat.ofDigitChars_append, Nat.ofDigitChars_ten_toDigits]
    exact (ofDigitChars_padded _ _ hlen).trans (Nat.div_add_mod digits (Nat.pow 10 places))

/-- The text of a decimal spells a decimal that is rounded alike. -/
theorem exists_spelled_positional (digits : Nat) {exponent : Int} (h : exponent < 39) :
    ∃ whole fraction, Spelled (positional digits exponent) whole fraction ∧
      (Decimal.mk false (natOfDigits (whole ++ fraction)) (-fraction.length)).toSingle =
        (Decimal.mk false digits exponent).toSingle := by
  unfold positional
  split
  · next he =>
    refine ⟨Nat.toDigits 10 (digits * Nat.pow 10 exponent.toNat), [],
      ⟨?_, Nat.toDigits_ne_nil, fun _ => isDigit_of_mem_toDigits, nofun⟩, ?_⟩
    · rw [Nat.repr_eq_ofList_toDigits, String.toList_ofList]
      exact (List.append_nil _).symm
    · have hz : (0 : Int) + exponent.toNat = exponent := by omega
      have hn : natOfDigits (Nat.toDigits 10 (digits * Nat.pow 10 exponent.toNat) ++ []) =
          digits * Nat.pow 10 exponent.toNat := by
        rw [List.append_nil]
        exact Nat.ofDigitChars_ten_toDigits
      have hs := @toSingle_mul_pow false digits exponent.toNat 0 (by omega)
      rw [hz] at hs
      rw [hn]
      exact hs
  · next he =>
    obtain ⟨hkept, count, hplaces, hvalue⟩ := exists_fraction digits (by omega : 0 < (-exponent).toNat)
    dsimp only
    generalize (List.dropWhile _ _).reverse = kept at hkept hplaces hvalue ⊢
    refine ⟨Nat.toDigits 10 (digits / Nat.pow 10 (-exponent).toNat), kept,
      ⟨?_, Nat.toDigits_ne_nil, fun _ => isDigit_of_mem_toDigits, hkept⟩, ?_⟩
    · unfold spelling
      rw [Nat.repr_eq_ofList_toDigits]
      split
      · rw [String.toList_ofList, List.append_nil]
      · simp only [String.toList_append, String.toList_ofList, List.append_assoc]
        rfl
    · have hexp : -(kept.length : Int) = exponent + count := by omega
      rw [hexp, ← toSingle_mul_pow false _ count (by omega), hvalue]

/-! ## Reading -/

/-- A text that starts with a digit has no sign. -/
theorem splitSign_of_isDigit {c : Char} (cs : List Char) (h : c.isDigit = true) :
    splitSign (c :: cs) = (false, c :: cs) := by
  unfold splitSign
  split
  · next he =>
    cases he
    cases h
  · next he =>
    cases he
    cases h
  · rfl

/-- Digits are taken up to what is no digit. -/
theorem span_isDigit {cs : List Char} (rest : List Char) (h : ∀ c ∈ cs, c.isDigit = true)
    (hr : ∀ c ∈ rest.head?, c.isDigit = false) :
    (cs ++ rest).takeWhile Char.isDigit = cs ∧ (cs ++ rest).dropWhile Char.isDigit = rest := by
  rw [List.takeWhile_append_of_pos h, List.dropWhile_append_of_pos h]
  cases rest with
  | nil => exact ⟨List.append_nil cs, rfl⟩
  | cons c rest =>
    have hc : ¬ c.isDigit = true := by simp [hr c rfl]
    rw [List.takeWhile_cons_of_neg hc, List.dropWhile_cons_of_neg hc]
    exact ⟨List.append_nil cs, rfl⟩

/-- Behind the digits before it stands the point, if there is a fraction. -/
theorem isDigit_of_head?_fraction {fraction : List Char} :
    ∀ c ∈ (if fraction = [] then [] else '.' :: fraction).head?, c.isDigit = false := by
  intro c hc
  split at hc
  · cases hc
  · cases hc
    rfl

theorem takeWhile_isDigit {cs : List Char} (h : ∀ c ∈ cs, c.isDigit = true) : cs.takeWhile Char.isDigit = cs := by
  have ht := (span_isDigit [] h nofun).1
  rwa [List.append_nil] at ht

/-- Digits are taken up to the point or the end. -/
theorem readMagnitude?_spelling {whole fraction : List Char} (hne : whole ≠ [])
    (hw : ∀ c ∈ whole, c.isDigit = true) (hf : ∀ c ∈ fraction, c.isDigit = true) :
    readMagnitude? false (spelling whole fraction) =
      some ⟨false, natOfDigits (whole ++ fraction), -fraction.length⟩ := by
  obtain ⟨hwhole, hrest⟩ := span_isDigit _ hw isDigit_of_head?_fraction
  obtain ⟨htake, hdrop⟩ := span_isDigit [] hf nofun
  rw [List.append_nil] at htake hdrop
  unfold readMagnitude? spelling
  rw [hwhole, hrest]
  cases fraction with
  | nil => simp [hne, readExponent?]
  | cons c fraction => simp [hne, htake, hdrop, readExponent?]

end Decimal

theorem Char.toLower_of_isDigit {c : Char} (h : c.isDigit = true) : c.toLower = c := by
  unfold Char.toLower Char.isDigit at *
  grind

/-- A spelling is read as the decimal that its digits are, rounded. -/
theorem Single.read?_of_spelled {text : String} {whole fraction : List Char}
    (h : Decimal.Spelled text whole fraction) :
    Single.read? text =
      some (Decimal.mk false (natOfDigits (whole ++ fraction)) (-fraction.length)).toSingle := by
  obtain ⟨ht, hne, hw, hf⟩ := h
  have hm := Decimal.readMagnitude?_spelling hne hw hf
  obtain ⟨c, cs, rfl⟩ := List.exists_cons_of_ne_nil hne
  have hc := hw c List.mem_cons_self
  have hs : Decimal.splitSign text.toList = (false, Decimal.spelling (c :: cs) fraction) := by
    rw [ht]
    exact Decimal.splitSign_of_isDigit _ hc
  -- what begins with a digit is none of the words for infinity and not-a-number
  have hword : ∀ (word : String) (d : Char), word.toList.head? = some d → d.isDigit = false →
      String.ofList ((Decimal.spelling (c :: cs) fraction).map Char.toLower) ≠ word := by
    rintro word d hd hn rfl
    rw [String.toList_ofList] at hd
    obtain rfl : c.toLower = d := Option.some.inj hd
    rw [Char.toLower_of_isDigit hc, hc] at hn
    cases hn
  unfold Single.read?
  rw [hs]
  dsimp only
  split
  · next he => exact absurd he (hword "inf" 'i' rfl rfl)
  · next he => exact absurd he (hword "infinity" 'i' rfl rfl)
  · next he => exact absurd he (hword "nan" 'n' rfl rfl)
  · rw [hm]
    rfl

namespace Single

/-- A number that is found on a grid is read from there. -/
theorem toSingle_of_onGrid? {x : Single} {units digits : Nat} {exponent : Int}
    (h : x.onGrid? units exponent = some digits) : (Decimal.mk false digits exponent).toSingle = x := by
  unfold onGrid? at h
  dsimp only at h
  split at h
  · next hb ha =>
    cases h
    split
    · exact eq_of_beq hb
    · exact eq_of_beq ha
  · next hb _ =>
    cases h
    exact eq_of_beq hb
  · next _ ha =>
    cases h
    exact eq_of_beq ha
  · cases h

/-- However many grids are tried, what is found in the end is read as the number. -/
theorem toSingle_shortestFrom {x : Single} {units : Nat}
    (hx : (Decimal.mk false (units * Nat.pow 5 149) (-149)).toSingle = x) (count : Nat) {exponent : Int}
    (he : exponent < 39) :
    (shortestFrom x units count exponent).2 < 39 ∧
      (Decimal.mk false (shortestFrom x units count exponent).1
        (shortestFrom x units count exponent).2).toSingle = x := by
  induction count generalizing exponent with
  | zero => exact ⟨(by decide : (-149 : Int) < 39), hx⟩
  | succ count ih =>
    unfold shortestFrom
    split
    · next digits hg => exact ⟨he, toSingle_of_onGrid? hg⟩
    · exact ih (by omega)

/-- Written in full a number is read as itself. -/
theorem toSingle_unitsOfRank (rank : Fin infinityRank) :
    (Decimal.mk false (unitsOfRank rank * Nat.pow 5 149) (-149)).toSingle = .finite false rank := by
  have he : (-149 : Int) < 39 := by decide
  rw [Decimal.toSingle_eq_ofRatio he, ← ofRatio_unitsOfRank]
  refine ofRatio_eq_of_mul_eq false (Nat.pow_pos (by decide)) (by decide) ?_
  have hp : Nat.pow 5 149 * unitsPerOne = 10 ^ 149 := by decide +kernel
  show unitsOfRank rank * Nat.pow 5 149 * 1 * unitsPerOne * 1 = unitsOfRank rank * 10 ^ 149
  rw [Nat.mul_one, Nat.mul_one, Nat.mul_assoc, hp]

/-- The shortest decimal of a number that is not negative is read as the number. -/
theorem toSingle_shortest (rank : Fin infinityRank) :
    (shortest false rank).exponent < 39 ∧ (shortest false rank).negative = false ∧
      (shortest false rank).toSingle = .finite false rank := by
  unfold shortest
  split
  · next h => exact ⟨by decide, rfl, congrArg (finite false) (Fin.ext h.symm)⟩
  · have h := toSingle_shortestFrom (toSingle_unitsOfRank rank) gridCount (by decide : coarsestGrid < 39)
    exact ⟨h.1, rfl, h.2⟩

/-- **The text of a finite number that is not negative spells it, and is read as that number.** -/
theorem read?_render (rank : Fin infinityRank) :
    (∃ whole fraction, Decimal.Spelled (render (.finite false rank)) whole fraction) ∧
      read? (render (.finite false rank)) = some (.finite false rank) := by
  obtain ⟨he, hn, hx⟩ := toSingle_shortest rank
  rw [show render (.finite false rank) = (shortest false rank).render from rfl]
  generalize shortest false rank = d at he hn hx
  obtain ⟨negative, digits, exponent⟩ := d
  obtain rfl : negative = false := hn
  have ht : (Decimal.mk false digits exponent).render = Decimal.positional digits exponent := String.empty_append
  obtain ⟨whole, fraction, hs, hr⟩ := Decimal.exists_spelled_positional digits he
  rw [ht, read?_of_spelled hs, hr, hx]
  exact ⟨⟨whole, fraction, hs⟩, rfl⟩

end Single

end TinyScript
