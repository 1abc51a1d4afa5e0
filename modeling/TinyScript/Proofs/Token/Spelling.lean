import TinyScript.Token.Feed

/-! # How tokens are spelled

The scanner gives a token the kind whose spelling it has met, so in a source text every operator, delimiter
and word of the language stands there as the tables spell it (`Token.scanned_of_mem_ofSource`). The end of
the input is no part of a source text.
-/

namespace TinyScript

/-- The spellings of all kinds that have one of their own. -/
def Token.Kind.spellings : List (String × Kind) :=
  symbols.map (fun entry => (String.ofList [entry.1], entry.2)) ++
    longSymbols.map (fun entry => (String.ofList [entry.1, '='], entry.2)) ++ keywords

/-- A token whose kind has a spelling of its own is spelled so. -/
def Token.Spelled (token : Token) : Prop :=
  ∀ entry ∈ Kind.spellings, token.kind = entry.2 → token.literal = entry.1

namespace Token

variable {text : String} {kind : Kind} {line : Nat}

/-- No kind is spelled in two ways. -/
theorem Kind.spellings_unique : ∀ a ∈ spellings, ∀ b ∈ spellings, a.2 = b.2 → a.1 = b.1 := by
  decide +kernel

/-- Each spelling, alone, is one piece of its kind. -/
theorem pieces_of_mem_spellings : ∀ entry ∈ Kind.spellings,
    pieces entry.1.toList = [⟨.token entry.2, entry.1.toList⟩] := by
  decide +kernel

theorem spelled_of_mem_spellings (h : (text, kind) ∈ Kind.spellings) : Spelled ⟨kind, text, line⟩ :=
  fun entry he hk => Kind.spellings_unique _ h entry he hk

/-- A kind without a spelling of its own may have any literal. -/
theorem spelled_of_not_mem (h : kind ∉ Kind.spellings.map Prod.snd) : Spelled ⟨kind, text, line⟩ :=
  fun _ he hk => absurd (List.mem_map.mpr ⟨_, he, hk.symm⟩) h

/-- What a scanner gives: a spelled token that is not the end of the input. -/
def Scanned (token : Token) : Prop := token.kind ≠ .endOfInput ∧ token.Spelled

/-- The end of the input has no spelling, so a token with one is not it. -/
theorem scanned_of_mem_spellings (h : (text, kind) ∈ Kind.spellings) : Scanned ⟨kind, text, line⟩ := by
  refine ⟨?_, spelled_of_mem_spellings h⟩
  rintro rfl
  exact absurd (List.mem_map_of_mem h) (by decide : Kind.endOfInput ∉ Kind.spellings.map Prod.snd)

theorem scanned_of_not_mem (h : kind ∉ Kind.spellings.map Prod.snd) (he : kind ≠ .endOfInput) :
    Scanned ⟨kind, text, line⟩ :=
  ⟨he, spelled_of_not_mem h⟩

end Token

namespace Piece

open Token

variable {text : String} {line : Nat}

theorem literal_eq_of_mem_spellings {text : String} {kind : Kind} (h : (text, kind) ∈ Kind.spellings)
    (cs : List Char) : literal kind cs = cs := by
  have hk : kind ∈ Kind.spellings.map Prod.snd := List.mem_map_of_mem h
  cases kind <;> first | rfl | exact absurd hk (by decide)

/-- A piece that is a spelling is scanned as the token spelled so. -/
theorem scanned_of_mem_spellings {cs : List Char} {kind : Kind}
    (h : (String.ofList cs, kind) ∈ Kind.spellings) :
    Scanned ⟨kind, String.ofList (literal kind cs), line⟩ := by
  rw [literal_eq_of_mem_spellings h]
  exact Token.scanned_of_mem_spellings h

theorem mem_of_lookup {κ ν : Type} [BEq κ] [LawfulBEq κ] {key : κ} {value : ν} {pairs : List (κ × ν)}
    (h : pairs.lookup key = some value) : (key, value) ∈ pairs := by
  obtain ⟨before, after, rfl, _⟩ := List.lookup_eq_some_iff.mp h
  exact List.mem_append_right before List.mem_cons_self

theorem scanned_symbol (c : Char) :
    Scanned ⟨(Kind.symbols.lookup c).getD .illegal,
      String.ofList (literal ((Kind.symbols.lookup c).getD .illegal) [c]), line⟩ := by
  cases h : Kind.symbols.lookup c with
  | none => exact scanned_of_not_mem (by decide) (by decide)
  | some kind =>
    refine scanned_of_mem_spellings (List.mem_append_left _ (List.mem_append_left _ ?_))
    exact List.mem_map.mpr ⟨(c, kind), mem_of_lookup h, rfl⟩

theorem scanned_longSymbol {c : Char} {kind : Kind} (h : Kind.longSymbols.lookup c = some kind) :
    Scanned ⟨kind, String.ofList (literal kind [c, '=']), line⟩ := by
  refine scanned_of_mem_spellings (List.mem_append_left _ (List.mem_append_right _ ?_))
  exact List.mem_map.mpr ⟨(c, kind), mem_of_lookup h, rfl⟩

theorem scanned_word (cs : List Char) :
    Scanned ⟨Kind.ofWord (String.ofList cs),
      String.ofList (literal (Kind.ofWord (String.ofList cs)) cs), line⟩ := by
  unfold Kind.ofWord
  cases h : Kind.keywords.lookup (String.ofList cs) with
  | none => exact scanned_of_not_mem (by decide) (by decide)
  | some kind => exact scanned_of_mem_spellings (List.mem_append_right _ (mem_of_lookup h))

theorem scanned_symbolTail {c : Char} {cs : List Char} {kind : Kind}
    (h : (symbolTail c cs).1 = .token kind) :
    Scanned ⟨kind, String.ofList (literal kind (c :: (symbolTail c cs).2)), line⟩ := by
  revert h
  unfold symbolTail
  split
  · intro h
    cases h
  · split
    · next kind hl =>
      intro h
      cases h
      exact scanned_longSymbol hl
    · intro h
      cases h
      exact scanned_symbol _
  · intro h
    cases h
    exact scanned_symbol _

theorem scanned_stringTail {text cs : List Char} {kind : Kind} (h : (stringTail cs).1 = .token kind) :
    Scanned ⟨kind, String.ofList text, line⟩ := by
  unfold stringTail at h
  split at h
  · cases h
    exact scanned_of_not_mem (by decide) (by decide)
  · cases h
    exact scanned_of_not_mem (by decide) (by decide)

/-- Whatever a piece is, its token is spelled as its kind asks. -/
theorem scanned_tail {c : Char} {cs : List Char} {kind : Kind} (h : (tail c cs).1 = .token kind) :
    Scanned ⟨kind, String.ofList (literal kind (c :: (tail c cs).2)), line⟩ := by
  revert h
  unfold tail
  split
  · intro h
    cases h
  split
  · intro h
    cases h
  split
  · intro h
    cases h
    exact scanned_of_not_mem (by decide) (by decide)
  split
  · exact scanned_stringTail
  split
  · intro h
    cases h
    exact scanned_word _
  · exact scanned_symbolTail

/-- The token of a piece at the head of a text is scanned. -/
theorem scanned_of_token? {c : Char} {cs : List Char} {token : Token}
    (h : (head c cs).token? line = some token) : token.Scanned := by
  unfold token? at h
  split at h
  · next kind hk =>
    cases h
    exact scanned_tail hk
  · cases h

end Piece

/-- Every piece of a text stands at the head of what is left of it. -/
theorem exists_head_of_mem_pieces {cs : List Char} {p : Piece} (h : p ∈ pieces cs) :
    ∃ c rest, p = Piece.head c rest := by
  fun_induction pieces cs with
  | case1 => cases h
  | case2 c cs ih =>
    rcases List.mem_cons.mp h with rfl | h
    · exact ⟨c, cs, rfl⟩
    · exact ih h

/-- Every token of pieces is the token of one of them. -/
theorem Token.exists_token?_of_mem_ofPieces : ∀ {ps : List Piece} {line : Nat} {token : Token},
    token ∈ Token.ofPieces line ps → ∃ p ∈ ps, ∃ at_, p.token? at_ = some token
  | [], _, _, h => nomatch h
  | p :: ps, line, token, h => by
    rcases List.mem_append.mp h with h | h
    · exact ⟨p, List.mem_cons_self, line, Option.mem_toList.mp h⟩
    · obtain ⟨q, hq, at_, ht⟩ := exists_token?_of_mem_ofPieces h
      exact ⟨q, List.mem_cons_of_mem p hq, at_, ht⟩

/-- Every token of a source text is spelled as its kind is, and is not the end of the input. -/
theorem Token.scanned_of_mem_ofSource {source : String} {token : Token}
    (h : token ∈ (Feed.ofSource source).tokens) : token.Scanned := by
  obtain ⟨p, hp, line, ht⟩ := exists_token?_of_mem_ofPieces h
  obtain ⟨c, rest, rfl⟩ := exists_head_of_mem_pieces hp
  exact Piece.scanned_of_token? ht

end TinyScript
