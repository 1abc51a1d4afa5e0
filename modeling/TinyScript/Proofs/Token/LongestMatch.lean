import Mathlib.Data.List.Forall2
import TinyScript.Proofs.Token.Cutting
import TinyScript.Proofs.Token.Lexeme

/-! # The longest match

At each place of a text a scanner has to take the longest text that some rule allows, as a word of the language
or an operator if it is spelled so, and one character where no rule allows anything. `Piece.Leads` says this of
a piece, and `Cut` of a text cut end to end. There is one such cut, and it is the one that `pieces` makes
(`cut_iff`). **The tokens of a source text are the texts of that cut but for the blanks, newlines and comments**,
strings without their quotes (`Token.scan_longestMatch`).
-/

namespace TinyScript

namespace Piece

/-- What a scanner has to take at the head of a text. -/
inductive Leads (p : Piece) (cs : List Char) : Prop where
  /-- The longest text that some rule allows. Words and operators go before names of the same text. -/
  | ruled (hp : p.text <+: cs) (ha : p.role.Allows p.text)
    (hl : ∀ (role : Role) (text : List Char), role.Allows text → text <+: cs → text.length ≤ p.text.length)
    (he : p.role = .token .identifier → ∀ kind, (String.ofList p.text, kind) ∉ exactRules)
  /-- One character where no rule allows anything. -/
  | unruled (c : Char) (hc : cs.head? = some c) (hp : p = ⟨.token .illegal, [c]⟩)
    (hl : ∀ (role : Role) (text : List Char), role.Allows text → ¬ text <+: cs)

/-! ## The classes of first characters -/

variable {c : Char} {cs text : List Char}

theorem tail_of_isBlank (h : isBlank c = true) : tail c cs = (.blank, cs.takeWhile isBlank) := by
  have hn : c ≠ '\n' := by
    rintro rfl
    cases h
  unfold tail
  rw [if_neg hn, if_pos h]

theorem not_isBlank_of_isDigit (h : c.isDigit = true) : c ≠ '\n' ∧ ¬ isBlank c = true := by
  refine ⟨?_, fun hb => ?_⟩
  · rintro rfl
    cases h
  · simp only [isBlank, Bool.or_eq_true, beq_iff_eq] at hb
    obtain ((rfl | rfl) | rfl) | rfl := hb <;> cases h

/-- A point is part of a number only before a digit. -/
theorem tail_of_isDigit (h : c.isDigit = true) :
    tail c cs = (.token .number,
      cs.takeWhile Char.isDigit ++ fraction (cs.drop (cs.takeWhile Char.isDigit).length)) := by
  obtain ⟨hn, hb⟩ := not_isBlank_of_isDigit h
  unfold tail
  rw [if_neg hn, if_neg hb, if_pos h]

theorem not_isDigit_of_beginsWord (h : beginsWord c = true) : ¬ c.isDigit = true := by
  rw [isDigit_iff]
  obtain (h | h) | rfl := beginsWord_iff.mp h
  · exact fun hd => absurd (Char.le_trans h.1 hd.2) (by decide)
  · exact fun hd => absurd (Char.le_trans h.1 hd.2) (by decide)
  · decide

theorem tail_of_beginsWord (h : beginsWord c = true) :
    tail c cs = (.token (.ofWord (String.ofList (c :: cs.takeWhile continuesWord))),
      cs.takeWhile continuesWord) := by
  have hb : c ≠ '\n' ∧ c ≠ '"' ∧ ¬ isBlank c = true := by
    refine ⟨?_, ?_, fun hb => ?_⟩
    · rintro rfl
      cases h
    · rintro rfl
      cases h
    · simp only [isBlank, Bool.or_eq_true, beq_iff_eq] at hb
      obtain ((rfl | rfl) | rfl) | rfl := hb <;> cases h
  unfold tail
  rw [if_neg hb.1, if_neg hb.2.2, if_neg (not_isDigit_of_beginsWord h), if_neg hb.2.1, if_pos h]

/-- Operators and delimiters are in none of the other classes. -/
theorem tail_of_mem_symbols {kind : Token.Kind} (h : (c, kind) ∈ Token.Kind.symbols) :
    tail c cs = symbolTail c cs := by
  have hc : ∀ entry ∈ Token.Kind.symbols, entry.1 ≠ '\n' ∧ ¬ isBlank entry.1 = true ∧
      ¬ entry.1.isDigit = true ∧ entry.1 ≠ '"' ∧ ¬ beginsWord entry.1 = true := by decide
  obtain ⟨hn, hb, hd, hq, hw⟩ := hc _ h
  unfold tail
  rw [if_neg hn, if_neg hb, if_neg hd, if_neg hq, if_neg hw]

/-! ## What the rules allow is taken -/

/-- What is all of one class is in front of what is not. -/
theorem prefix_takeWhile {p : Char → Bool} (h : text <+: cs) (ht : ∀ d ∈ text, p d = true) :
    text <+: cs.takeWhile p := by
  obtain ⟨more, rfl⟩ := h
  rw [List.takeWhile_append_of_pos ht]
  exact List.prefix_append _ _

theorem ne_quote_of_not_mem (h : '"' ∉ text) : ∀ d ∈ text, (d != '"') = true :=
  fun _ hd => bne_iff_ne.mpr fun he => h (he ▸ hd)

theorem stringTail_of_not_mem (h : '"' ∉ text) (rest : List Char) :
    stringTail (text ++ '"' :: rest) = (.token .string, text ++ ['"']) := by
  have hd := ne_quote_of_not_mem h
  unfold stringTail
  rw [List.dropWhile_append_of_pos hd, List.takeWhile_append_of_pos hd]
  simp

/-- Words are no illegal tokens, and are no names where they are spelled as words of the language. -/
theorem ofWord_cases (word : String) :
    (Token.Kind.ofWord word = .identifier ∧ ∀ kind, (word, kind) ∉ Token.Kind.keywords) ∨
      (word, Token.Kind.ofWord word) ∈ Token.Kind.keywords := by
  unfold Token.Kind.ofWord
  cases h : Token.Kind.keywords.lookup word with
  | some kind => exact .inr (mem_of_lookup h)
  | none =>
    refine .inl ⟨rfl, fun kind hm => ?_⟩
    have := List.lookup_eq_none_iff.mp h _ hm
    simp at this

/-- How a text that is allowed behind `c` bears on what is taken there: it is no longer, and where it is as long
it is taken in its role, unless it is a name that is spelled as a word of the language. -/
structure Role.Within (role : Role) (c : Char) (text : List Char) (taken : Role × List Char) : Prop where
  ne_illegal : taken.1 ≠ .token .illegal
  le_taken : text <+: taken.2
  role_eq : text = taken.2 →
    role = taken.1 ∨ role = .token .identifier ∧ ∃ kind, (String.ofList (c :: text), kind) ∈ exactRules

/-- A text of the role that was taken, and a prefix of what was taken, is within it. -/
theorem Role.Within.of_role_eq {role : Role} {taken : Role × List Char} (hr : role = taken.1)
    (hi : role ≠ .token .illegal) (ht : text <+: taken.2) : role.Within c text taken :=
  ⟨hr ▸ hi, ht, fun _ => .inl hr⟩

theorem within_decimal {e : Char} {es : List Char} (hc : c.isDigit = true) (hcs : ∀ d ∈ text, d.isDigit = true)
    (he : e.isDigit = true) (hes : ∀ d ∈ es, d.isDigit = true) (hp : text ++ '.' :: e :: es <+: cs) :
    Role.Within (.token .number) c (text ++ '.' :: e :: es) (tail c cs) := by
  obtain ⟨more, rfl⟩ := hp
  have ht : (text ++ '.' :: e :: (es ++ more)).takeWhile Char.isDigit = text := by
    rw [List.takeWhile_append_of_pos hcs]
    exact List.append_nil text
  have hf : fraction ('.' :: e :: (es ++ more)) = '.' :: e :: (es ++ more).takeWhile Char.isDigit := if_pos he
  rw [List.append_assoc, List.cons_append, List.cons_append, tail_of_isDigit hc, ht, List.drop_left, hf]
  refine .of_role_eq rfl (by decide) ((List.prefix_append_right_inj text).mpr ?_)
  exact List.cons_prefix_cons.mpr ⟨rfl, List.cons_prefix_cons.mpr ⟨rfl,
    prefix_takeWhile (List.prefix_append es more) hes⟩⟩

theorem within_openString (h : '"' ∉ text) (hp : text <+: cs) :
    Role.Within (.token .openString) '"' text (stringTail cs) := by
  unfold stringTail
  split
  · exact .of_role_eq rfl (by decide) hp
  · have ht := prefix_takeWhile hp (ne_quote_of_not_mem h)
    refine ⟨fun hr => absurd (Role.token.inj hr) (by decide), ht.trans (List.prefix_append _ _), fun he => ?_⟩
    -- what is closed holds a quote, and the text does not
    exact absurd (he ▸ List.mem_append_right _ (List.mem_singleton_self '"')) h

theorem mem_exactRules_of_keywords {word : String} {kind : Token.Kind} (h : (word, kind) ∈ Token.Kind.keywords) :
    (word, kind) ∈ exactRules :=
  mem_exactRules.mpr (List.mem_append_right _ h)

/-- A word, or a keyword, is within the whole word that stands there. -/
theorem within_word {kind : Token.Kind} (hc : beginsWord c = true) (ht : ∀ d ∈ text, continuesWord d = true)
    (hp : text <+: cs)
    (hk : kind = .identifier ∨ (String.ofList (c :: text), kind) ∈ Token.Kind.keywords) :
    Role.Within (.token kind) c text (tail c cs) := by
  have unique : ∀ a ∈ Token.Kind.keywords, ∀ b ∈ Token.Kind.keywords, a.1 = b.1 → a.2 = b.2 := by decide
  have legal : ∀ entry ∈ Token.Kind.keywords, entry.2 ≠ .illegal := by decide
  rw [tail_of_beginsWord hc]
  refine ⟨fun hr => ?_, prefix_takeWhile hp ht, ?_⟩
  · obtain ⟨hi, _⟩ | hm := ofWord_cases (String.ofList (c :: cs.takeWhile continuesWord))
    · exact nomatch hi.symm.trans (Role.token.inj hr)
    · exact legal _ hm (Role.token.inj hr)
  · intro he
    dsimp only at he ⊢
    rw [← he]
    obtain ⟨hi, hn⟩ | hm := ofWord_cases (String.ofList (c :: text))
    · obtain rfl | hk := hk
      · exact .inl (congrArg Role.token hi.symm)
      · exact absurd hk (hn kind)
    · obtain rfl | hk := hk
      · exact .inr ⟨rfl, _, mem_exactRules_of_keywords hm⟩
      · exact .inl (congrArg Role.token (unique _ hk _ hm rfl))

/-- Words of the language look like names. -/
theorem word_of_mem_keywords {kind : Token.Kind} (h : (String.ofList (c :: text), kind) ∈ Token.Kind.keywords) :
    beginsWord c = true ∧ ∀ d ∈ text, continuesWord d = true := by
  have hk : ∀ entry ∈ Token.Kind.keywords,
      entry.1.toList.head?.all beginsWord && entry.1.toList.tail.all continuesWord := by decide
  have hw := hk _ h
  simpa using hw

/-- No symbol is listed twice, and none is illegal. -/
theorem lookup_of_mem_symbols : ∀ entry ∈ Token.Kind.symbols,
    Token.Kind.symbols.lookup entry.1 = some entry.2 ∧ entry.2 ≠ .illegal := by
  decide

theorem within_symbol {kind : Token.Kind} (h : (c, kind) ∈ Token.Kind.symbols) :
    Role.Within (.token kind) c [] (symbolTail c cs) := by
  have long : ∀ entry ∈ Token.Kind.longSymbols, entry.2 ≠ .illegal := by decide
  obtain ⟨hl, hk⟩ := lookup_of_mem_symbols _ h
  have hs : symbolTail c [] = (.token kind, []) := by rw [symbolTail_nil, hl]; rfl
  have alone : Role.Within (.token kind) c [] (symbolTail c []) := by
    rw [hs]
    exact .of_role_eq rfl (fun hr => hk (Role.token.inj hr)) List.nil_prefix
  cases cs with
  | nil => exact alone
  | cons x cs =>
    rw [symbolTail_cons]
    split
    · exact ⟨(nomatch ·), List.nil_prefix, (nomatch ·)⟩
    split
    · next long? hm =>
      split at hm
      · exact ⟨fun hr => long _ (mem_of_lookup hm) (Role.token.inj hr), List.nil_prefix, (nomatch ·)⟩
      · cases hm
    · exact alone

/-- A rule for one text allows it. -/
theorem within_exactly {kind : Token.Kind} (h : (String.ofList (c :: text), kind) ∈ Token.Kind.spellings)
    (hp : text <+: cs) : Role.Within (.token kind) c text (tail c cs) := by
  obtain h | h := List.mem_append.mp h
  · obtain h | h := List.mem_append.mp h
    · obtain ⟨⟨d, other⟩, hm, he⟩ := List.mem_map.mp h
      obtain ⟨ht, rfl⟩ := Prod.mk.inj he
      obtain ⟨rfl, rfl⟩ := List.cons.inj (String.ofList_injective ht)
      rw [tail_of_mem_symbols hm]
      exact within_symbol hm
    · obtain ⟨⟨d, other⟩, hm, he⟩ := List.mem_map.mp h
      obtain ⟨ht, rfl⟩ := Prod.mk.inj he
      obtain ⟨rfl, rfl⟩ := List.cons.inj (String.ofList_injective ht)
      obtain ⟨more, rfl⟩ := hp
      have ht : ∀ entry ∈ Token.Kind.longSymbols, ∀ more,
          tail entry.1 ('=' :: more) = (.token entry.2, ['=']) ∧ entry.2 ≠ .illegal := by
        simp only [Token.Kind.longSymbols, List.forall_mem_cons]
        exact ⟨fun _ => ⟨rfl, by decide⟩, fun _ => ⟨rfl, by decide⟩, fun _ => ⟨rfl, by decide⟩,
          fun _ => ⟨rfl, by decide⟩, fun _ h => nomatch h⟩
      obtain ⟨ht, hi⟩ := ht _ hm more
      show Role.Within _ _ _ (tail d ('=' :: more))
      rw [ht]
      exact .of_role_eq rfl (fun hr => hi (Role.token.inj hr)) (List.prefix_refl _)
  · obtain ⟨hc, ht⟩ := word_of_mem_keywords h
    exact within_word hc ht hp (.inr h)

/-- **What a rule allows at the head of a text is no longer than what is taken there.** -/
theorem Role.Shape.within {role : Role} (h : role.Shape (c :: text)) (hp : text <+: cs) :
    role.Within c text (tail c cs) := by
  cases h with
  | blank hc hcs =>
    rw [tail_of_isBlank hc]
    exact .of_role_eq rfl (by decide) (prefix_takeWhile hp hcs)
  | newline => exact .of_role_eq rfl (by decide) List.nil_prefix
  | comment h =>
    obtain ⟨more, rfl⟩ := hp
    refine .of_role_eq rfl (by decide) (List.cons_prefix_cons.mpr ⟨rfl, ?_⟩)
    exact prefix_takeWhile (List.prefix_append _ more) fun d hd => bne_iff_ne.mpr fun he => h (he ▸ hd)
  | whole hc hcs =>
    rw [tail_of_isDigit hc]
    exact .of_role_eq rfl (by decide) ((prefix_takeWhile hp hcs).trans (List.prefix_append _ _))
  | decimal hc hcs he hes => exact within_decimal hc hcs he hes hp
  | @closedString cs h =>
    obtain ⟨more, rfl⟩ := hp
    rw [List.append_assoc]
    show Role.Within _ _ _ (stringTail (cs ++ '"' :: more))
    rw [stringTail_of_not_mem h]
    exact .of_role_eq rfl (by decide) (List.prefix_refl _)
  | openString h => exact within_openString h hp
  | identifier hc hcs => exact within_word hc hcs hp (.inl rfl)
  | exactly h => exact within_exactly h hp

/-! ## What is taken is allowed -/

theorem all_takeWhile {p : Char → Bool} : ∀ d ∈ cs.takeWhile p, p d = true :=
  List.all_eq_true.mp List.all_takeWhile

theorem shape_number (hc : c.isDigit = true) (hcs : ∀ d ∈ text, d.isDigit = true) (rest : List Char) :
    Role.Shape (.token .number) (c :: (text ++ fraction rest)) := by
  unfold fraction
  split
  · split
    · next he => exact .decimal hc hcs he all_takeWhile
    · exact (List.append_nil text).symm ▸ .whole hc hcs
  · exact (List.append_nil text).symm ▸ .whole hc hcs

theorem shape_stringTail (cs : List Char) : (stringTail cs).1.Shape ('"' :: (stringTail cs).2) := by
  unfold stringTail
  split
  · next h =>
    refine .openString fun hq => ?_
    have ht := List.takeWhile_append_dropWhile (p := (· != '"')) (l := cs)
    rw [h, List.append_nil] at ht
    rw [← ht] at hq
    cases all_takeWhile _ hq
  · refine .closedString fun hq => ?_
    cases all_takeWhile _ hq

theorem shape_symbolTail (c : Char) (cs : List Char) :
    symbolTail c cs = (.token .illegal, []) ∨ (symbolTail c cs).1.Shape (c :: (symbolTail c cs).2) := by
  have alone : symbolTail c [] = (.token .illegal, []) ∨ (symbolTail c []).1.Shape (c :: (symbolTail c []).2) := by
    rw [symbolTail_nil]
    cases h : Token.Kind.symbols.lookup c with
    | none => exact .inl rfl
    | some kind =>
      refine .inr (.exactly (List.mem_append_left _ (List.mem_append_left _ ?_)))
      exact List.mem_map.mpr ⟨(c, kind), mem_of_lookup h, rfl⟩
  cases cs with
  | nil => exact alone
  | cons x cs =>
    rw [symbolTail_cons]
    split
    · next h =>
      obtain ⟨rfl, rfl⟩ := h
      refine .inr (.comment fun hn => ?_)
      cases all_takeWhile _ hn
    split
    · next kind hm =>
      split at hm
      · refine .inr (.exactly (List.mem_append_left _ (List.mem_append_right _ ?_)))
        exact List.mem_map.mpr ⟨(c, kind), mem_of_lookup hm, rfl⟩
      · cases hm
    · exact alone

/-- A piece is of the shape that its role tells, or a single character that nothing begins with. -/
theorem shape_tail (c : Char) (cs : List Char) :
    tail c cs = (.token .illegal, []) ∨ (tail c cs).1.Shape (c :: (tail c cs).2) := by
  unfold tail
  split
  · next h => exact .inr (h ▸ .newline)
  split
  · next h => exact .inr (.blank h all_takeWhile)
  split
  · next h => exact .inr (shape_number h all_takeWhile _)
  split
  · next h => exact .inr (h ▸ shape_stringTail cs)
  split
  · next h =>
    refine .inr ?_
    dsimp only
    obtain ⟨hi, _⟩ | hm := ofWord_cases (String.ofList (c :: cs.takeWhile continuesWord))
    · rw [hi]
      exact .identifier h all_takeWhile
    · exact .exactly (List.mem_append_right _ hm)
  · exact shape_symbolTail c cs

/-- What begins with a letter is spelled as an operator or a delimiter nowhere. -/
theorem mem_keywords_of_beginsWord {kind : Token.Kind} (hc : beginsWord c = true)
    (h : (String.ofList (c :: text), kind) ∈ Token.Kind.spellings) :
    (String.ofList (c :: text), kind) ∈ Token.Kind.keywords := by
  have hs : ∀ entry ∈ Token.Kind.spellings, entry.1.toList.head?.all beginsWord = true →
      entry ∈ Token.Kind.keywords := by decide
  exact hs _ h (by simpa using hc)

/-- A name that is taken is spelled as nothing else. -/
theorem not_mem_exactRules_of_tail (h : (tail c cs).1 = .token .identifier) (kind : Token.Kind) :
    (String.ofList (c :: (tail c cs).2), kind) ∉ exactRules := by
  intro hm
  have hc : beginsWord c = true := by
    have hs := shape_tail c cs
    rw [h] at hs
    obtain hs | hs := hs
    · exact absurd (h.symm.trans (congrArg Prod.fst hs)) (by decide)
    · cases hs with
      | identifier hc => exact hc
      | exactly hs =>
        have hi : Token.Kind.identifier ∉ Token.Kind.spellings.map Prod.snd := by decide
        exact absurd (List.mem_map_of_mem hs) hi
  rw [tail_of_beginsWord hc] at h hm
  have hk := mem_keywords_of_beginsWord hc (mem_exactRules.mp hm)
  obtain ⟨_, hn⟩ | ho := ofWord_cases (String.ofList (c :: cs.takeWhile continuesWord))
  · exact hn kind hk
  · rw [Role.token.inj h] at ho
    exact absurd (List.mem_map_of_mem ho) (by decide : .identifier ∉ Token.Kind.keywords.map Prod.snd)

/-! ## The piece at the head -/

theorem Role.Shape.ne_nil {role : Role} (h : role.Shape text) : text ≠ [] := by
  rintro rfl
  cases h with
  | exactly h => exact absurd (List.mem_map_of_mem h) (by decide : "" ∉ Token.Kind.spellings.map Prod.fst)

/-- What is allowed at the head of a text begins with its first character. -/
theorem Role.Allows.exists_within {role : Role} (h : role.Allows text) (hp : text <+: c :: cs) :
    ∃ rest, text = c :: rest ∧ rest <+: cs ∧ role.Within c rest (tail c cs) := by
  have hs := Role.allows_iff.mp h
  obtain ⟨d, rest, rfl⟩ := List.exists_cons_of_ne_nil hs.ne_nil
  obtain ⟨rfl, hr⟩ := List.cons_prefix_cons.mp hp
  exact ⟨rest, rfl, hr, hs.within hr⟩

/-- The piece at the head of a text and what is behind it are the text. -/
theorem text_head_append (c : Char) (cs : List Char) :
    (head c cs).text ++ cs.drop (tail c cs).2.length = c :: cs := by
  obtain ⟨rest, h⟩ := tail_prefix c cs
  have hd : cs.drop (tail c cs).2.length = rest := (congrArg (List.drop _) h.symm).trans List.drop_left
  rw [hd]
  exact congrArg (c :: ·) h

/-- The first piece is a longest match. -/
theorem head_leads (c : Char) (cs : List Char) : (head c cs).Leads (c :: cs) := by
  obtain hi | hs := shape_tail c cs
  · refine .unruled c rfl ?_ fun role text ha hp => ?_
    · unfold head
      rw [hi]
    · obtain ⟨rest, rfl, _, hw⟩ := ha.exists_within hp
      exact hw.ne_illegal (congrArg Prod.fst hi)
  · refine .ruled ?_ (Role.allows_iff.mpr hs) (fun role text ha hp => ?_) not_mem_exactRules_of_tail
    · exact List.cons_prefix_cons.mpr ⟨rfl, tail_prefix c cs⟩
    · obtain ⟨rest, rfl, _, hw⟩ := ha.exists_within hp
      exact Nat.succ_le_succ hw.le_taken.length_le

theorem Leads.exists_cons {p : Piece} (h : p.Leads cs) : ∃ c rest, p.text = c :: rest := by
  cases h with
  | ruled _ ha _ _ => exact List.exists_cons_of_ne_nil (Role.allows_iff.mp ha).ne_nil
  | unruled c _ hp _ => exact ⟨c, [], congrArg Piece.text hp⟩

/-- **The piece that is taken is the one that has to be.** -/
theorem leads_iff {p : Piece} : p.Leads (c :: cs) ↔ p = head c cs := by
  refine ⟨fun h => ?_, fun h => h ▸ head_leads c cs⟩
  obtain ⟨role, text⟩ := p
  cases h with
  | ruled hp ha hl he =>
    obtain ⟨rest, rfl, hr, hw⟩ := ha.exists_within hp
    have hs := (shape_tail c cs).resolve_left fun hi => hw.ne_illegal (congrArg Prod.fst hi)
    have hle := hl _ _ (Role.allows_iff.mpr hs) (List.cons_prefix_cons.mpr ⟨rfl, tail_prefix c cs⟩)
    obtain rfl : rest = (tail c cs).2 := hw.le_taken.eq_of_length_le (Nat.le_of_succ_le_succ hle)
    obtain rfl | ⟨rfl, kind, hk⟩ := hw.role_eq rfl
    · rfl
    · exact absurd hk (he rfl kind)
  | unruled d hd hp hl =>
    cases hd
    obtain ⟨rfl, rfl⟩ := Piece.mk.inj hp
    obtain hi | hs := shape_tail c cs
    · unfold head
      rw [hi]
    · exact absurd (List.cons_prefix_cons.mpr ⟨rfl, tail_prefix c cs⟩) (hl _ _ (Role.allows_iff.mpr hs))

end Piece

/-- A text cut end to end, each piece the one that has to be taken where it stands. -/
inductive Cut : List Piece → List Char → Prop where
  | nil : Cut [] []
  | cons {p : Piece} {ps : List Piece} {rest : List Char} (h : p.Leads (p.text ++ rest)) (hr : Cut ps rest) :
    Cut (p :: ps) (p.text ++ rest)

/-- The pieces of a text are longest matches, one after the other. -/
theorem cut_pieces (cs : List Char) : Cut (pieces cs) cs := by
  fun_induction pieces cs with
  | case1 => exact .nil
  | case2 c cs ih =>
    have ht := Piece.text_head_append c cs
    have h := Cut.cons (ht ▸ Piece.head_leads c cs) ih
    rwa [ht] at h

/-- **A text can be cut in one way**, and is. -/
theorem cut_iff {ps : List Piece} {cs : List Char} : Cut ps cs ↔ ps = pieces cs := by
  refine ⟨fun h => ?_, fun h => h ▸ cut_pieces cs⟩
  induction h with
  | nil => rw [pieces]
  | @cons p ps rest h _ ih =>
    obtain ⟨c, text, ht⟩ := h.exists_cons
    rw [ht, List.cons_append] at h ⊢
    have hp := Piece.leads_iff.mp h
    have htext : text = (Piece.tail c (text ++ rest)).2 :=
      (List.cons.inj (ht.symm.trans (congrArg Piece.text hp))).2
    rw [pieces_cons, ← hp, ← htext, List.drop_left, ih]

/-! ## The tokens of a text -/

/-- The part of a text between two places, which are counted in bytes; nothing unless they are in order and
each is the beginning or the end of a character. -/
def Text.slice? (text : String) (first last : Nat) : Option String :=
  if h : first ≤ last ∧ String.Pos.Raw.IsValid text ⟨first⟩ ∧ String.Pos.Raw.IsValid text ⟨last⟩ then
    some (String.extract ⟨⟨first⟩, h.2.1⟩ ⟨⟨last⟩, h.2.2⟩ : String)
  else none

/-- The bytes between two positions are those of the text that stands there. -/
theorem Text.slice?_append (before text after : String) :
    slice? (before ++ text ++ after) before.utf8ByteSize (before.utf8ByteSize + text.utf8ByteSize) =
      some text := by
  have hf : String.Pos.Raw.IsValid (before ++ text ++ after) ⟨before.utf8ByteSize⟩ :=
    String.Pos.Raw.isValid_iff_exists_append.mpr ⟨before, text ++ after, String.append_assoc, rfl⟩
  have hl : String.Pos.Raw.IsValid (before ++ text ++ after) ⟨before.utf8ByteSize + text.utf8ByteSize⟩ :=
    String.Pos.Raw.isValid_iff_exists_append.mpr
      ⟨before ++ text, after, rfl, by simp [String.Pos.Raw.ext_iff]⟩
  unfold slice?
  rw [dif_pos ⟨Nat.le_add_right _ _, hf, hl⟩]
  refine congrArg some (String.toByteArray_inj.mp ?_)
  rw [String.toByteArray_extract, String.toByteArray_append, String.toByteArray_append]
  dsimp only
  rw [ByteArray.extract_append, ByteArray.extract_append_eq_right String.size_toByteArray.symm
    (by simp only [String.size_toByteArray])]
  simp

namespace Piece

/-- Whether a piece is a token, not a blank, a newline or a comment. -/
def isToken (p : Piece) : Bool :=
  match p.role with
  | .token _ => true
  | _ => false

/-- A token is of the kind of its piece and has its text. A string has it without its quotes, each of which is one
byte. -/
inductive Yields (p : Piece) (token : Token) : Prop where
  | whole (hr : p.role = .token token.kind) (hk : token.kind ≠ .string ∧ token.kind ≠ .openString)
    (ht : String.ofList p.text = token.literal)
  | closedString (hr : p.role = .token .string) (hk : token.kind = .string)
    (ht : String.ofList p.text = "\"" ++ token.literal ++ "\"")
    (hs : Text.slice? (String.ofList p.text) 1 ((String.ofList p.text).utf8ByteSize - 1) = some token.literal)
  | openString (hr : p.role = .token .openString) (hk : token.kind = .openString)
    (ht : String.ofList p.text = "\"" ++ token.literal)
    (hs : Text.slice? (String.ofList p.text) 1 (String.ofList p.text).utf8ByteSize = some token.literal)

variable {p : Piece} {line : Nat} {token : Token}

theorem yields_closedString (text : List Char) :
    Yields ⟨.token .string, '"' :: (text ++ ['"'])⟩ ⟨.string, String.ofList text, line⟩ := by
  have ht : String.ofList ('"' :: (text ++ ['"'])) = "\"" ++ String.ofList text ++ "\"" := by
    rw [← List.cons_append, String.ofList_append, String.ofList_cons]
    rfl
  have hl : ("\"" ++ String.ofList text ++ "\"").utf8ByteSize - 1 = 1 + (String.ofList text).utf8ByteSize := by
    rw [String.utf8ByteSize_append, String.utf8ByteSize_append]
    rfl
  refine .closedString rfl rfl ht ?_
  dsimp only
  rw [ht, hl]
  exact Text.slice?_append "\"" (String.ofList text) "\""

theorem yields_openString (text : List Char) :
    Yields ⟨.token .openString, '"' :: text⟩ ⟨.openString, String.ofList text, line⟩ := by
  have ht : String.ofList ('"' :: text) = "\"" ++ String.ofList text := by
    rw [String.ofList_cons]
    rfl
  have hs := Text.slice?_append "\"" (String.ofList text) ""
  rw [String.append_empty] at hs
  refine .openString rfl rfl ht ?_
  dsimp only
  rw [ht, String.utf8ByteSize_append]
  exact hs

theorem yields_whole {kind : Token.Kind} (hk : kind ≠ .string ∧ kind ≠ .openString) (text : List Char) :
    Yields ⟨.token kind, text⟩ ⟨kind, String.ofList text, line⟩ :=
  .whole rfl hk rfl

/-- A piece of a token yields it with its literal: all of its text, or what is inside the quotes. -/
theorem Role.Shape.yields {kind : Token.Kind} {text : List Char} (h : Role.Shape (.token kind) text) :
    Yields ⟨.token kind, text⟩ ⟨kind, String.ofList (literal kind text), line⟩ := by
  cases h with
  | whole => exact yields_whole (by decide) _
  | decimal => exact yields_whole (by decide) _
  | identifier => exact yields_whole (by decide) _
  | @closedString cs h =>
    have hl : literal .string ('"' :: (cs ++ ['"'])) = cs := List.dropLast_concat
    rw [hl]
    exact yields_closedString cs
  | openString => exact yields_openString _
  | exactly h =>
    have hk : ∀ entry ∈ Token.Kind.spellings, entry.2 ≠ .string ∧ entry.2 ≠ .openString := by decide
    rw [literal_eq_of_mem_spellings h]
    exact yields_whole (hk _ h) text

/-- The token of the piece at the head of a text. -/
theorem yields_of_token? {c : Char} {cs : List Char} (h : (head c cs).token? line = some token) :
    (head c cs).Yields token := by
  unfold token? at h
  split at h
  · next kind hk =>
    cases h
    obtain hi | hs := shape_tail c cs
    · have hh : head c cs = ⟨.token .illegal, [c]⟩ := by
        unfold head
        rw [hi]
      rw [hh] at hk ⊢
      cases hk
      exact yields_whole (by decide) [c]
    · have hs : Role.Shape (head c cs).role (head c cs).text := hs
      generalize head c cs = p at hk hs ⊢
      obtain ⟨role, text⟩ := p
      subst hk
      exact hs.yields
  · cases h

end Piece

/-- There is one token for each piece that is one. -/
theorem Token.forall₂_yields_ofPieces {ps : List Piece}
    (h : ∀ p ∈ ps, ∀ (line : Nat) (token : Token), p.token? line = some token → p.Yields token) (line : Nat) :
    List.Forall₂ Piece.Yields (ps.filter Piece.isToken) (Token.ofPieces line ps) := by
  induction ps generalizing line with
  | nil => exact .nil
  | cons p ps ih =>
    have hrest := ih (fun q hq => h q (List.mem_cons_of_mem p hq)) (line + p.newlines)
    have hp := h p List.mem_cons_self line
    rw [List.filter_cons, Token.ofPieces]
    unfold Piece.token? Piece.isToken at *
    cases hr : p.role with
    | token kind =>
      simp only [hr] at hp
      exact .cons (hp _ rfl) hrest
    | _ => exact hrest

/-- A string that is not closed is the last piece of its text. -/
theorem eq_nil_of_openString {cs : List Char} {before after : List Piece} {p : Piece}
    (h : pieces cs = before ++ p :: after) (hr : p.role = .token .openString) : after = [] := by
  fun_induction pieces cs generalizing before with
  | case1 => exact absurd (congrArg List.length h) (by simp)
  | case2 c cs ih =>
    cases before with
    | cons q before => exact ih (List.cons.inj h).2
    | nil =>
      obtain ⟨rfl, rfl⟩ := List.cons.inj h
      rw [Piece.tail_eq_of_openString hr, List.drop_length, pieces]

/-- **A source text is cut in one way into the longest pieces that the rules allow, and its tokens are the pieces
that are tokens**, closed by one end of the input. A string that is not closed is the last of them. -/
theorem Token.scan_longestMatch (source : String) :
    ∃ cut : List Piece, (∀ ps, Cut ps source.toList ↔ ps = cut) ∧
      ∃ tokens line, Token.scan source = tokens ++ [Token.atEnd line] ∧
        (∀ token ∈ tokens, token.kind ≠ .endOfInput) ∧
        List.Forall₂ Piece.Yields (cut.filter Piece.isToken) tokens ∧
        ∀ before token after, tokens = before ++ token :: after → token.kind = .openString → after = [] := by
  refine ⟨pieces source.toList, fun ps => cut_iff, (Feed.ofSource source).tokens, (Feed.ofSource source).lastLine,
    rfl, fun token ht => (Token.scanned_of_mem_ofSource ht).1, ?_, ?_⟩
  · refine Token.forall₂_yields_ofPieces (fun p hp line token ht => ?_) 1
    obtain ⟨c, rest, rfl⟩ := exists_head_of_mem_pieces hp
    exact Piece.yields_of_token? ht
  · intro before token after h hk
    obtain ⟨earlier, p, later, hp, _, ht, _, ha⟩ := Token.exists_piece_of_ofPieces h
    have hl := eq_nil_of_openString hp (hk ▸ (Piece.role_of_token? ht).1)
    rw [← ha, hl, Token.ofPieces]

end TinyScript
