import TinyScript.Proofs.Layout.Relining
import TinyScript.Proofs.Token.Spelling

/-! # Where pieces stop

The piece at the head of a text is the longest that its rule allows, so text that is put behind it may
lengthen it. Of each role it is known which characters cannot: the piece **stops before** them. A text is cut
as it is cut alone, **whatever it stands in front of, if all its pieces stop before the first character there**
(`pieces_append`), and then its tokens are followed by those of the rest (`Token.ofText_append`).
-/

namespace TinyScript

/-- Whether the text of a token cannot be longer before a character. -/
def Token.Kind.stopsBefore (kind : Token.Kind) (c : Char) : Bool :=
  match kind with
  | .number => !(c.isDigit || c == '.')
  | .openString => false
  | .identifier | .fnWord | .letWord | .trueWord | .falseWord | .ifWord | .elseWord | .andWord | .orWord
  | .returnWord => !Piece.continuesWord c
  | .assign | .bang | .less | .greater => c != '='
  | .slash => c != '/'
  | _ => true

/-- Words stop before what cannot continue a word. -/
theorem Token.Kind.stopsBefore_ofWord (word : String) (c : Char) :
    (ofWord word).stopsBefore c = !Piece.continuesWord c := by
  have hk : ∀ entry ∈ keywords, entry.2.stopsBefore c = !Piece.continuesWord c := by
    simp [keywords, stopsBefore]
  unfold ofWord
  cases h : keywords.lookup word with
  | none => rfl
  | some kind => exact hk _ (Piece.mem_of_lookup h)

namespace Piece

/-- Whether a piece of a role cannot be longer before a character. -/
def Role.stopsBefore (role : Role) (c : Char) : Bool :=
  match role with
  | .blank => !isBlank c
  | .newline => true
  | .comment => c == '\n'
  | .token kind => kind.stopsBefore c

variable {c : Char} {cs rest : List Char}

/-- What is taken of a text stops before a character that is not taken. -/
theorem takeWhile_append {p : Char → Bool} (h : ∀ x ∈ rest.head?, p x = false) :
    (cs ++ rest).takeWhile p = cs.takeWhile p := by
  have hr : rest.takeWhile p = [] := by
    cases rest with
    | nil => rfl
    | cons x rest => exact List.takeWhile_cons_of_neg (by simp [h x rfl])
  rw [List.takeWhile_append, hr, List.append_nil]
  split
  · next hl => exact ((List.takeWhile_prefix p).eq_of_length hl).symm
  · rfl

/-- A fraction begins with a point. -/
theorem fraction_of_ne (h : c ≠ '.') : fraction (c :: cs) = [] := by
  unfold fraction
  split
  · next he => exact absurd (List.cons.inj he).1 h
  · rfl

theorem fraction_append (h : ∀ x ∈ rest.head?, x.isDigit = false ∧ x ≠ '.') :
    fraction (cs ++ rest) = fraction cs := by
  cases cs with
  | nil =>
    cases rest with
    | nil => rfl
    | cons x rest => exact fraction_of_ne (h x rfl).2
  | cons c cs =>
    by_cases hc : c = '.'
    · subst hc
      cases cs with
      | nil =>
        cases rest with
        | nil => rfl
        | cons x rest => exact if_neg (by simp [(h x rfl).1])
      | cons d cs =>
        show (if d.isDigit then '.' :: d :: (cs ++ rest).takeWhile Char.isDigit else []) = _
        rw [takeWhile_append fun x hx => (h x hx).1]
        rfl
    · rw [List.cons_append, fraction_of_ne hc, fraction_of_ne hc]

/-- A closed string does not depend on what follows it. -/
theorem stringTail_append (h : (stringTail cs).1 ≠ .token .openString) :
    stringTail (cs ++ rest) = stringTail cs := by
  unfold stringTail at h ⊢
  rw [List.dropWhile_append]
  cases hd : cs.dropWhile (· != '"') with
  | nil => simp [hd] at h
  | cons x others =>
    have hl : ¬ (cs.takeWhile (· != '"')).length = cs.length := by
      have := congrArg List.length (List.takeWhile_append_dropWhile (p := (· != '"')) (l := cs))
      rw [hd, List.length_append, List.length_cons] at this
      omega
    rw [List.takeWhile_append, if_neg hl]
    rfl

theorem symbolTail_nil (c : Char) :
    symbolTail c [] = (.token ((Token.Kind.symbols.lookup c).getD .illegal), []) := by
  unfold symbolTail
  split <;> first | rfl | contradiction

/-- What an operator, a delimiter or a character of no rule does with the character behind it. -/
theorem symbolTail_cons (c x : Char) (cs : List Char) :
    symbolTail c (x :: cs) =
      if c = '/' ∧ x = '/' then (.comment, '/' :: cs.takeWhile (· != '\n'))
      else
        match if x = '=' then Token.Kind.longSymbols.lookup c else none with
        | some kind => (.token kind, ['='])
        | none => symbolTail c [] := by
  rw [symbolTail_nil]
  by_cases he : c = '/' ∧ x = '/'
  · obtain ⟨rfl, rfl⟩ := he
    rfl
  rw [if_neg he]
  unfold symbolTail
  split
  · next hx => exact absurd ⟨rfl, (List.cons.inj hx).1⟩ he
  · next hx =>
    cases Token.Kind.longSymbols.lookup _ <;> rw [if_pos (List.cons.inj hx).1]
  · next hx _ =>
    rw [if_neg fun hx' => hx _ (congrArg (· :: cs) hx')]

theorem symbolTail_append (h : ∀ x ∈ rest.head?, (symbolTail c cs).1.stopsBefore x = true) :
    symbolTail c (cs ++ rest) = symbolTail c cs := by
  cases cs with
  | nil =>
    cases rest with
    | nil => rfl
    | cons x rest =>
      have hx := h x rfl
      rw [List.nil_append, symbolTail_cons]
      split
      · next he =>
        obtain ⟨rfl, rfl⟩ := he
        cases hx
      split
      · next kind hl =>
        split at hl
        · next he =>
          subst he
          have hl : (c, kind) ∈ Token.Kind.longSymbols := mem_of_lookup hl
          have hs : ∀ entry ∈ Token.Kind.longSymbols, (symbolTail entry.1 []).1.stopsBefore '=' = false := by
            decide
          rw [hs _ hl] at hx
          cases hx
        · cases hl
      · rfl
  | cons y cs =>
    rw [List.cons_append, symbolTail_cons]
    rw [symbolTail_cons] at h ⊢
    split
    · next he =>
      rw [if_pos he] at h
      rw [takeWhile_append fun x hx => by simpa [Role.stopsBefore] using h x hx]
    · rfl

/-- A piece is the same before text that it stops before. -/
theorem tail_append (h : ∀ x ∈ rest.head?, (tail c cs).1.stopsBefore x = true) :
    tail c (cs ++ rest) = tail c cs := by
  unfold tail at h ⊢
  split
  · rfl
  split
  · next hn hb =>
    rw [if_neg hn, if_pos hb] at h
    rw [takeWhile_append fun x hx => by simpa [Role.stopsBefore] using h x hx]
  split
  · next hn hb hd =>
    rw [if_neg hn, if_neg hb, if_pos hd] at h
    have hs : ∀ x ∈ rest.head?, x.isDigit = false ∧ x ≠ '.' := fun x hx => by
      simpa [Role.stopsBefore, Token.Kind.stopsBefore] using h x hx
    have hl : (cs.takeWhile Char.isDigit).length ≤ cs.length := (List.takeWhile_prefix _).length_le
    dsimp only
    rw [takeWhile_append fun x hx => (hs x hx).1, List.drop_append_of_le_length hl, fraction_append hs]
  split
  · next hn hb hd hq =>
    rw [if_neg hn, if_neg hb, if_neg hd, if_pos hq] at h
    cases rest with
    | nil => rw [List.append_nil]
    | cons x rest =>
      refine stringTail_append fun ho => ?_
      have hx := h x rfl
      rw [ho] at hx
      cases hx
  split
  · next hn hb hd hq hw =>
    rw [if_neg hn, if_neg hb, if_neg hd, if_neg hq, if_pos hw] at h
    have hs : ∀ x ∈ rest.head?, continuesWord x = false := fun x hx => by
      simpa [Role.stopsBefore, Token.Kind.stopsBefore_ofWord] using h x hx
    dsimp only
    rw [takeWhile_append hs]
  · next hn hb hd hq hw =>
    rw [if_neg hn, if_neg hb, if_neg hd, if_neg hq, if_neg hw] at h
    exact symbolTail_append h

end Piece

theorem pieces_cons (c : Char) (cs : List Char) :
    pieces (c :: cs) = Piece.head c cs :: pieces (cs.drop (Piece.tail c cs).2.length) := by
  rw [pieces]

/-- **A text is cut as it is cut alone, in front of text that all its pieces stop before.** -/
theorem pieces_append {cs rest : List Char}
    (h : ∀ p ∈ pieces cs, ∀ x ∈ rest.head?, p.role.stopsBefore x = true) :
    pieces (cs ++ rest) = pieces cs ++ pieces rest := by
  fun_induction pieces cs with
  | case1 => rfl
  | case2 c cs ih =>
    have ht : Piece.tail c (cs ++ rest) = Piece.tail c cs :=
      Piece.tail_append (h (Piece.head c cs) List.mem_cons_self)
    have hl : (Piece.tail c cs).2.length ≤ cs.length := (Piece.tail_prefix c cs).length_le
    have hh : Piece.head c (cs ++ rest) = Piece.head c cs := by
      unfold Piece.head
      rw [ht]
    rw [List.cons_append, pieces_cons, hh, ht, List.drop_append_of_le_length hl,
      ih fun p hp => h p (List.mem_cons_of_mem _ hp)]
    rfl

/-- The tokens of a text, without their lines. -/
def Token.ofText (cs : List Char) : List Token := (pieces cs).filterMap (Piece.token? · 0)

theorem Token.ofText_nil : Token.ofText [] = [] := by
  unfold Token.ofText
  rw [pieces]
  rfl

theorem Token.map_unlined_ofPieces (line : Nat) (ps : List Piece) :
    (Token.ofPieces line ps).map Token.unlined = ps.filterMap (Piece.token? · 0) := by
  induction ps generalizing line with
  | nil => rfl
  | cons p ps ih =>
    have hp : (p.token? line).toList.map Token.unlined = (p.token? 0).toList := by
      unfold Piece.token?
      cases p.role <;> rfl
    rw [Token.ofPieces, List.map_append, hp, ih, List.filterMap_cons]
    cases p.token? 0 <;> rfl

theorem Token.map_unlined_ofSource (source : String) :
    (Feed.ofSource source).tokens.map Token.unlined = Token.ofText source.toList :=
  Token.map_unlined_ofPieces 1 _

theorem Token.ofText_append {cs rest : List Char}
    (h : ∀ p ∈ pieces cs, ∀ x ∈ rest.head?, p.role.stopsBefore x = true) :
    Token.ofText (cs ++ rest) = Token.ofText cs ++ Token.ofText rest := by
  unfold Token.ofText
  rw [pieces_append h, List.filterMap_append]

theorem Token.line_of_mem_ofText {cs : List Char} {token : Token} (h : token ∈ Token.ofText cs) :
    token.line = 0 := by
  obtain ⟨p, _, hp⟩ := List.mem_filterMap.mp h
  unfold Piece.token? at hp
  split at hp
  · cases hp
    rfl
  · cases hp

/-! ## Where a token stands -/

theorem Piece.role_of_token? {p : Piece} {line : Nat} {token : Token} (h : p.token? line = some token) :
    p.role = .token token.kind ∧ token.line = line := by
  unfold Piece.token? at h
  split at h
  · next hr =>
    cases h
    exact ⟨hr, rfl⟩
  · cases h

/-- **The pieces before that of a token give the tokens before it**, and its line is counted over their texts. -/
theorem Token.exists_piece_of_ofPieces {line : Nat} {ps : List Piece} {before after : List Token} {token : Token}
    (h : Token.ofPieces line ps = before ++ token :: after) :
    ∃ earlier p later, ps = earlier ++ p :: later ∧ Token.ofPieces line earlier = before ∧
      p.token? (line + (earlier.flatMap Piece.text).count '\n') = some token ∧
        ∃ next, Token.ofPieces next later = after := by
  induction ps generalizing line before with
  | nil => exact absurd (congrArg List.length h) (by simp [Token.ofPieces])
  | cons p ps ih =>
    have further {before : List Token} (h : Token.ofPieces (line + p.newlines) ps = before ++ token :: after) :
        ∃ earlier q later, p :: ps = (p :: earlier) ++ q :: later ∧
          Token.ofPieces line (p :: earlier) = (p.token? line).toList ++ before ∧
          q.token? (line + ((p :: earlier).flatMap Piece.text).count '\n') = some token ∧
            ∃ next, Token.ofPieces next later = after := by
      obtain ⟨earlier, q, later, hps, hb, hq, ha⟩ := ih h
      refine ⟨earlier, q, later, congrArg (p :: ·) hps, ?_, ?_, ha⟩
      · rw [Token.ofPieces, hb]
      · rwa [List.flatMap_cons, List.count_append, ← Nat.add_assoc]
    rw [Token.ofPieces] at h
    cases ht : p.token? line with
    | none =>
      rw [ht] at h further
      obtain ⟨earlier, q, later, hps, hb, hq, ha⟩ := further h
      exact ⟨p :: earlier, q, later, hps, hb, hq, ha⟩
    | some first =>
      rw [ht] at h further
      cases before with
      | nil =>
        obtain ⟨rfl, ha⟩ := List.cons.inj h
        exact ⟨[], p, ps, rfl, rfl, ht, _, ha⟩
      | cons other before =>
        obtain ⟨rfl, hrest⟩ := List.cons.inj h
        obtain ⟨earlier, q, later, hps, hb, hq, ha⟩ := further hrest
        exact ⟨p :: earlier, q, later, hps, hb, hq, ha⟩

/-! ## Strings that are not closed -/

/-- No operator, no delimiter and no character of no rule begins a string. -/
theorem Piece.symbolTail_ne_openString (c : Char) (cs : List Char) :
    (Piece.symbolTail c cs).1 ≠ .token .openString := by
  have hlong : ∀ entry ∈ Token.Kind.longSymbols, entry.2 ≠ .openString := by decide
  have hshort : ∀ entry ∈ Token.Kind.symbols, entry.2 ≠ .openString := by decide
  have hnil : (Piece.symbolTail c []).1 ≠ .token .openString := by
    rw [symbolTail_nil]
    cases h : Token.Kind.symbols.lookup c with
    | none => exact fun h => nomatch h
    | some kind => exact fun he => hshort _ (mem_of_lookup h) (Role.token.inj he)
  cases cs with
  | nil => exact hnil
  | cons x cs =>
    rw [Piece.symbolTail_cons]
    split
    · exact fun h => nomatch h
    split
    · next kind hl =>
      split at hl
      · exact fun h => hlong _ (mem_of_lookup hl) (Role.token.inj h)
      · cases hl
    · exact hnil

/-- A string that is not closed takes the rest of its text. -/
theorem Piece.tail_eq_of_openString {c : Char} {cs : List Char} (h : (Piece.tail c cs).1 = .token .openString) :
    (Piece.tail c cs).2 = cs := by
  revert h
  unfold Piece.tail
  split
  · intro h
    cases h
  split
  · intro h
    cases h
  split
  · intro h
    cases h
  split
  · unfold Piece.stringTail
    split
    · intro _
      rfl
    · intro h
      cases h
  split
  · intro h
    have hs := Token.Kind.stopsBefore_ofWord (String.ofList (c :: cs.takeWhile Piece.continuesWord)) ' '
    rw [Role.token.inj h] at hs
    cases hs
  · intro h
    exact absurd h (Piece.symbolTail_ne_openString c cs)

/-- A string that is not closed is the last token of its text. -/
theorem Token.getLast?_of_openString {cs : List Char} {p : Piece} (h : p ∈ pieces cs)
    (hr : p.role = .token .openString) :
    ∃ token, (Token.ofText cs).getLast? = some token ∧ token.kind = .openString := by
  fun_induction pieces cs with
  | case1 => cases h
  | case2 c cs ih =>
    rcases List.mem_cons.mp h with rfl | h
    · have ht : Piece.tail c cs = (.token .openString, cs) := Prod.ext hr (Piece.tail_eq_of_openString hr)
      unfold Token.ofText
      rw [pieces_cons, Piece.head, ht, List.drop_length, pieces]
      exact ⟨_, rfl, rfl⟩
    · obtain ⟨token, ht, hk⟩ := ih h
      refine ⟨token, ?_, hk⟩
      unfold Token.ofText at ht ⊢
      rw [pieces_cons, List.filterMap_cons]
      split
      · exact ht
      · rw [List.getLast?_cons, ht]
        rfl

/-- A newline ends every piece but a string that is not closed. -/
theorem pieces_append_newline {cs : List Char} (rest : List Char)
    (h : ∀ token ∈ (Token.ofText cs).getLast?, token.kind ≠ .openString) :
    pieces (cs ++ '\n' :: rest) = pieces cs ++ ⟨.newline, ['\n']⟩ :: pieces rest := by
  have hs : ∀ p ∈ pieces cs, ∀ c ∈ ('\n' :: rest).head?, p.role.stopsBefore c = true := by
    rintro p hp _ ⟨⟩
    have hr : p.role ≠ .token .openString := fun hr => by
      obtain ⟨token, ht, hk⟩ := Token.getLast?_of_openString hp hr
      exact h token ht hk
    cases hrole : p.role with
    | token kind => cases kind <;> first | rfl | exact absurd hrole hr
    | _ => rfl
  rw [pieces_append hs, pieces_cons]
  rfl

theorem Token.ofText_append_newline {cs : List Char} (rest : List Char)
    (h : ∀ token ∈ (Token.ofText cs).getLast?, token.kind ≠ .openString) :
    Token.ofText (cs ++ '\n' :: rest) = Token.ofText cs ++ Token.ofText rest := by
  unfold Token.ofText
  rw [pieces_append_newline rest h, List.filterMap_append]
  rfl

end TinyScript
