import TinyScript.Proofs.Number.Reading
import TinyScript.Proofs.Token.Cutting
import TinyScript.Text.Join

/-! # Texts that are scanned as tokens

What a text is scanned as depends on what it stands in front of, but not on much of it. A text **spells**
tokens when it is scanned as them in front of whatever begins with none of the few characters that could
lengthen a token, and it **closes** with tokens when it is scanned as them in front of anything. Names,
numbers and operators spell their tokens; delimiters, strings and blanks close. A text is put together from
such parts, and its tokens are those of its parts.
-/

namespace TinyScript

/-- Whether a character lengthens no token but a string that is not closed. -/
def Token.endsToken (c : Char) : Bool :=
  !(Piece.continuesWord c || c == '.' || c == '=' || c == '/')

/-- A character that ends a token stops every kind but an open string. -/
theorem Token.Kind.stopsBefore_of_endsToken {kind : Kind} {c : Char} (hk : kind ≠ .openString)
    (h : endsToken c = true) : kind.stopsBefore c = true := by
  simp only [endsToken, Bool.not_eq_true', Bool.or_eq_false_iff, beq_eq_false_iff_ne] at h
  have hd : c.isDigit = false := by
    have := h.1.1.1
    simp only [Piece.continuesWord, Char.isAlphanum, Bool.or_eq_false_iff] at this
    exact this.1.2
  cases kind <;> simp_all [stopsBefore]

/-- A text that is scanned as tokens in front of what does not lengthen a token. -/
def Token.Spells (text : String) (tokens : List Token) : Prop :=
  ∀ rest, (∀ c ∈ rest.head?, endsToken c = true) → ofText (text.toList ++ rest) = tokens ++ ofText rest

/-- A text that is scanned as tokens in front of anything. -/
def Token.Closes (text : String) (tokens : List Token) : Prop :=
  ∀ rest, ofText (text.toList ++ rest) = tokens ++ ofText rest

namespace Token

variable {text more : String} {tokens others : List Token} {kind : Kind}

theorem Closes.spells (h : Closes text tokens) : Spells text tokens := fun rest _ => h rest

theorem closes_empty : Closes "" [] := fun _ => rfl

/-- Texts that close may be followed by anything, and so by each other. -/
theorem Closes.append (h : Closes text tokens) (hm : Closes more others) :
    Closes (text ++ more) (tokens ++ others) := by
  intro rest
  rw [String.toList_append, List.append_assoc, h, hm, List.append_assoc]

/-- The last text alone decides what may follow. -/
theorem Closes.append_spells (h : Closes text tokens) (hm : Spells more others) :
    Spells (text ++ more) (tokens ++ others) := by
  intro rest hr
  rw [String.toList_append, List.append_assoc, h, hm rest hr, List.append_assoc]

/-- A text that could go on is closed by one that begins with no character to go on with. -/
theorem Spells.append {c : Char} (h : Spells text tokens) (hm : Closes more others)
    (hc : more.toList.head? = some c) (he : endsToken c = true) : Closes (text ++ more) (tokens ++ others) := by
  intro rest
  have hh : (more.toList ++ rest).head? = some c := by rw [List.head?_append, hc]; rfl
  have hr : ∀ d ∈ (more.toList ++ rest).head?, endsToken d = true := fun d hd => by
    rw [hh] at hd
    exact Option.some.inj hd ▸ he
  rw [String.toList_append, List.append_assoc, h _ hr, hm, List.append_assoc]

/-! ## Single pieces -/

theorem pieces_eq_singleton {c : Char} {cs : List Char} {role : Piece.Role}
    (h : Piece.tail c cs = (role, cs)) : pieces (c :: cs) = [⟨role, c :: cs⟩] := by
  rw [pieces_cons, Piece.head, h, List.drop_length, pieces]

/-- A text that is one piece is followed by what follows, if the piece stops there. -/
theorem ofText_of_pieces {cs rest : List Char} (hp : pieces cs = [⟨.token kind, cs⟩])
    (h : ∀ c ∈ rest.head?, kind.stopsBefore c = true) :
    ofText (cs ++ rest) = ⟨kind, String.ofList (Piece.literal kind cs), 0⟩ :: ofText rest := by
  have hs : ∀ p ∈ pieces cs, ∀ c ∈ rest.head?, p.role.stopsBefore c = true := fun p hm => by
    rw [hp] at hm
    obtain rfl := List.mem_singleton.mp hm
    exact h
  rw [ofText_append hs]
  unfold ofText
  rw [hp]
  rfl

theorem spells_of_pieces (hk : kind ≠ .openString) (hp : pieces text.toList = [⟨.token kind, text.toList⟩]) :
    Spells text [⟨kind, String.ofList (Piece.literal kind text.toList), 0⟩] :=
  fun _ hr => ofText_of_pieces hp fun c hc => Kind.stopsBefore_of_endsToken hk (hr c hc)

theorem closes_of_pieces (hk : ∀ c, kind.stopsBefore c = true)
    (hp : pieces text.toList = [⟨.token kind, text.toList⟩]) :
    Closes text [⟨kind, String.ofList (Piece.literal kind text.toList), 0⟩] :=
  fun _ => ofText_of_pieces hp fun c _ => hk c

/-- A token with one spelling has it as its literal. -/
theorem literal_of_mem_spellings (h : (text, kind) ∈ Kind.spellings) :
    String.ofList (Piece.literal kind text.toList) = text := by
  rw [Piece.literal_eq_of_mem_spellings h, String.ofList_toList]

/-- Operators, delimiters and words of the language spell their tokens. -/
theorem spells_of_mem_spellings (h : (text, kind) ∈ Kind.spellings) : Spells text [⟨kind, text, 0⟩] := by
  have hk : kind ≠ .openString := by
    rintro rfl
    exact absurd (List.mem_map_of_mem h) (by decide : Kind.openString ∉ Kind.spellings.map Prod.snd)
  have hs := spells_of_pieces hk (pieces_of_mem_spellings _ h)
  rwa [literal_of_mem_spellings h] at hs

/-- Delimiters close. -/
theorem closes_of_mem_spellings (h : (text, kind) ∈ Kind.spellings) (hk : ∀ c, kind.stopsBefore c = true) :
    Closes text [⟨kind, text, 0⟩] := by
  have hs := closes_of_pieces hk (pieces_of_mem_spellings _ h)
  rwa [literal_of_mem_spellings h] at hs

/-- Blanks that follow each other are one piece, without a token. -/
theorem ofText_of_isBlank {c : Char} (cs : List Char) (h : Piece.isBlank c = true) :
    ofText (c :: cs) = ofText (cs.dropWhile Piece.isBlank) := by
  have hn : c ≠ '\n' := by
    rintro rfl
    cases h
  have ht : Piece.tail c cs = (.blank, cs.takeWhile Piece.isBlank) := by
    unfold Piece.tail
    rw [if_neg hn, if_pos h]
  have hd : cs.drop (cs.takeWhile Piece.isBlank).length = cs.dropWhile Piece.isBlank :=
    (congrArg (List.drop _) List.takeWhile_append_dropWhile.symm).trans List.drop_left
  unfold ofText
  rw [pieces_cons, Piece.head, ht, hd]
  rfl

theorem closes_blank : Closes " " [] := by
  intro rest
  refine (ofText_of_isBlank rest rfl).trans ?_
  cases rest with
  | nil => rfl
  | cons c cs =>
    by_cases h : Piece.isBlank c = true
    · rw [List.dropWhile_cons_of_pos h]
      exact (ofText_of_isBlank cs h).symm
    · rw [List.dropWhile_cons_of_neg h]
      rfl

/-- A text between quotes, none of which is in it, closes with its token. -/
theorem closes_quoted (h : '"' ∉ text.toList) : Closes ("\"" ++ text ++ "\"") [⟨.string, text, 0⟩] := by
  have hne : ∀ c ∈ text.toList, (c != '"') = true := fun c hc => bne_iff_ne.mpr fun he => h (he ▸ hc)
  have ht : Piece.tail '"' (text.toList ++ ['"']) = (.token .string, text.toList ++ ['"']) := by
    show Piece.stringTail (text.toList ++ ['"']) = _
    unfold Piece.stringTail
    rw [List.dropWhile_append_of_pos hne, List.takeWhile_append_of_pos hne]
    simp
  have hp : pieces ("\"" ++ text ++ "\"").toList = [⟨.token .string, ("\"" ++ text ++ "\"").toList⟩] := by
    simp only [String.toList_append]
    exact pieces_eq_singleton ht
  have hc := closes_of_pieces (fun _ => rfl) hp
  have hl : Piece.literal .string ("\"" ++ text ++ "\"").toList = text.toList := by
    simp [Piece.literal]
  rwa [hl, String.ofList_toList] at hc

/-- A piece that begins with a digit holds all digits that follow, and a fraction. -/
theorem tail_of_isDigit {c : Char} {cs fraction : List Char} (hc : c.isDigit = true)
    (hcs : ∀ d ∈ cs, d.isDigit = true) (hf : ∀ d ∈ fraction, d.isDigit = true) :
    Piece.tail c (cs ++ if fraction = [] then [] else '.' :: fraction) =
      (.token .number, cs ++ if fraction = [] then [] else '.' :: fraction) := by
  have hn : c ≠ '\n' := by
    rintro rfl
    cases hc
  have hb : ¬ Piece.isBlank c = true := by
    intro hb
    simp only [Piece.isBlank, Bool.or_eq_true, beq_iff_eq] at hb
    obtain ((rfl | rfl) | rfl) | rfl := hb <;> cases hc
  have hfraction : Piece.fraction (if fraction = [] then [] else '.' :: fraction) =
      if fraction = [] then [] else '.' :: fraction := by
    cases fraction with
    | nil => rfl
    | cons d ds =>
      have ht := Decimal.takeWhile_isDigit fun e he => hf e (List.mem_cons_of_mem d he)
      show (if d.isDigit then '.' :: d :: ds.takeWhile Char.isDigit else []) = '.' :: d :: ds
      rw [if_pos (hf d List.mem_cons_self), ht]
  unfold Piece.tail
  rw [if_neg hn, if_neg hb, if_pos hc]
  dsimp only
  rw [(Decimal.span_isDigit _ hcs Decimal.isDigit_of_head?_fraction).1, List.drop_left, hfraction]

/-- The text of a number spells its token. -/
theorem spells_of_spelled {whole fraction : List Char} (h : Decimal.Spelled text whole fraction) :
    Spells text [⟨.number, text, 0⟩] := by
  obtain ⟨ht, hne, hw, hf⟩ := h
  obtain ⟨c, cs, rfl⟩ := List.exists_cons_of_ne_nil hne
  have hp : pieces text.toList = [⟨.token .number, text.toList⟩] := by
    rw [ht]
    exact pieces_eq_singleton
      (tail_of_isDigit (hw c List.mem_cons_self) (fun d hd => hw d (List.mem_cons_of_mem c hd)) hf)
  have hs := spells_of_pieces (by decide) hp
  rwa [show String.ofList (Piece.literal .number text.toList) = text from String.ofList_toList] at hs

/-! ## Lists -/

/-- A comma and a blank between neighbours. -/
theorem closes_comma : Closes ", " [⟨.comma, ",", 0⟩] := by
  have hc : Closes "," [⟨.comma, ",", 0⟩] := closes_of_mem_spellings (by decide) fun _ => rfl
  exact hc.append closes_blank

/-- One more text in front of a list of texts. -/
theorem Spells.commaSeparated {next : String} {texts : List String} (h : Spells text tokens)
    (ht : Spells (Text.commaSeparated (next :: texts)) others) :
    Spells (Text.commaSeparated (text :: next :: texts)) (tokens ++ ⟨.comma, ",", 0⟩ :: others) := by
  have hc := (h.append closes_comma rfl rfl).append_spells ht
  rwa [List.append_assoc] at hc

end Token

end TinyScript
