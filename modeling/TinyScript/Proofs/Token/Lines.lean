import TinyScript.Proofs.Token.LongestMatch

/-! # The lines of tokens

A scanner that hands out one token after another keeps a count of lines. It counts a newline when it passes
over one, and the newlines of a string when it has read the string; a token is on the line counted so far. That
is enough because no other piece of a text holds a newline (`Piece.counted_head`), and so the scanner hands out
what the feed of its text does (`Scanner.next_eq`). **Each token is on one plus the number of newlines before its
first character**, and the end of the input on one plus the number of all of them (`Scanner.line_token`).
-/

namespace TinyScript

namespace Piece

/-- The newlines that a scanner counts when it has read a piece. -/
def counted (p : Piece) : Nat :=
  match p.role with
  | .newline => 1
  | .token .string | .token .openString => p.newlines
  | _ => 0

theorem counted_of_ne {kind : Token.Kind} (h : kind ≠ .string ∧ kind ≠ .openString) (text : List Char) :
    (Piece.mk (.token kind) text).counted = 0 := by
  unfold counted
  split
  · next hr => cases hr
  · next hr => exact absurd (Role.token.inj hr) h.1
  · next hr => exact absurd (Role.token.inj hr) h.2
  · rfl

theorem not_mem_newline {p : Char → Bool} {cs : List Char} (hn : p '\n' = false) (h : ∀ d ∈ cs, p d = true) :
    '\n' ∉ cs := fun hm => by
  have hp := h _ hm
  rw [hn] at hp
  cases hp

/-- Newlines stand in no pieces but those that are counted. -/
theorem Role.Shape.count_newline {role : Role} {text : List Char} (h : role.Shape text) :
    text.count '\n' = (Piece.mk role text).counted := by
  cases h with
  | blank hc hcs =>
    exact List.count_eq_zero.mpr (not_mem_newline (p := isBlank) rfl (List.forall_mem_cons.mpr ⟨hc, hcs⟩))
  | newline => rfl
  | comment h => exact List.count_eq_zero.mpr (by simpa using h)
  | whole hc hcs =>
    exact List.count_eq_zero.mpr (not_mem_newline (p := Char.isDigit) rfl (List.forall_mem_cons.mpr ⟨hc, hcs⟩))
  | decimal hc hcs he hes =>
    refine List.count_eq_zero.mpr (not_mem_newline (p := fun d => d.isDigit || d == '.') rfl fun d hd => ?_)
    simp only [List.mem_cons, List.mem_append] at hd
    obtain rfl | hd | rfl | rfl | hd := hd <;> simp [*]
  | closedString => rfl
  | openString => rfl
  | identifier hc hcs =>
    refine List.count_eq_zero.mpr (not_mem_newline (p := fun d => beginsWord d || continuesWord d) rfl ?_)
    intro d hd
    obtain rfl | hd := List.mem_cons.mp hd <;> simp [*]
  | exactly h =>
    have ht : ∀ entry ∈ Token.Kind.spellings, entry.2 ≠ .string ∧ entry.2 ≠ .openString ∧
        '\n' ∉ entry.1.toList := by decide
    obtain ⟨hs, ho, hn⟩ := ht _ h
    rw [counted_of_ne ⟨hs, ho⟩]
    rw [String.toList_ofList] at hn
    exact List.count_eq_zero.mpr hn

/-- **What is counted of a piece are its newlines.** -/
theorem counted_head (c : Char) (cs : List Char) : (head c cs).counted = (head c cs).newlines := by
  obtain hi | hs := shape_tail c cs
  · have hn : c ≠ '\n' := by
      rintro rfl
      cases hi
    have hh : head c cs = ⟨.token .illegal, [c]⟩ := by
      unfold head
      rw [hi]
    rw [hh]
    exact (List.count_eq_zero.mpr fun hm => hn (List.mem_singleton.mp hm).symm).symm
  · exact hs.count_newline.symm

end Piece

/-- A text that is still to be read, and the line counted so far. -/
structure Scanner where
  rest : List Char
  line : Nat

namespace Scanner

/-- The scanner of a source text. -/
def ofSource (source : String) : Scanner := ⟨source.toList, 1⟩

/-- The next token, and the scanner behind it. At the end of its text a scanner stays as it is. -/
def next : Scanner → Token × Scanner
  | ⟨[], line⟩ => (Token.atEnd line, ⟨[], line⟩)
  | ⟨c :: cs, line⟩ =>
    let p := Piece.head c cs
    let after : Scanner := ⟨cs.drop (Piece.tail c cs).2.length, line + p.counted⟩
    match p.token? line with
    | some token => (token, after)
    | none => after.next
termination_by scanner => scanner.rest.length
decreasing_by simp only [List.length_drop, List.length_cons]; omega

/-- The token that is read after `count` others. -/
def token (scanner : Scanner) : Nat → Token
  | 0 => scanner.next.1
  | count + 1 => scanner.next.2.token count

/-- What a scanner hands out, as a feed. -/
def feed (scanner : Scanner) : Feed :=
  ⟨Token.ofPieces scanner.line (pieces scanner.rest), scanner.line + scanner.rest.count '\n'⟩

theorem feed_cons (c : Char) (cs : List Char) (line : Nat) :
    let p := Piece.head c cs
    let after : Scanner := ⟨cs.drop (Piece.tail c cs).2.length, line + p.counted⟩
    feed ⟨c :: cs, line⟩ = ⟨(p.token? line).toList ++ after.feed.tokens, after.feed.lastLine⟩ := by
  have hl : (c :: cs).count '\n' =
      (Piece.head c cs).newlines + (cs.drop (Piece.tail c cs).2.length).count '\n' := by
    conv_lhs => rw [← Piece.text_head_append c cs, List.count_append]
    rfl
  unfold feed
  dsimp only
  rw [pieces_cons, Token.ofPieces, hl, Piece.counted_head, Nat.add_assoc]

/-- **A scanner reads what its feed holds**, one token at a time. -/
theorem next_eq (scanner : Scanner) :
    scanner.next.1 = scanner.feed.head ∧ scanner.next.2.feed = scanner.feed.rest := by
  fun_induction next scanner with
  | case1 line =>
    have hf : feed ⟨[], line⟩ = ⟨[], line⟩ := by
      unfold feed
      rw [pieces]
      rfl
    rw [hf]
    exact ⟨rfl, rfl⟩
  | case2 line c cs p after token h =>
    rw [feed_cons, h]
    exact ⟨rfl, rfl⟩
  | case3 line c cs p after h ih =>
    rw [feed_cons, h]
    exact ih

/-- Past the last token there is the end of input, over and over. -/
theorem token_eq (scanner : Scanner) (count : Nat) :
    scanner.token count = scanner.feed.tokens[count]?.getD scanner.feed.atEnd := by
  induction count generalizing scanner with
  | zero =>
    rw [token, (next_eq scanner).1, Feed.head, List.head?_eq_getElem?]
  | succ count ih =>
    rw [token, ih, (next_eq scanner).2, Feed.rest, ← List.drop_one, List.getElem?_drop, Nat.add_comm 1]
    rfl

/-- A token stands on the line counted when it is read, and none is counted back. -/
theorem line_next (scanner : Scanner) :
    scanner.line ≤ scanner.next.1.line ∧ scanner.next.1.line ≤ scanner.next.2.line := by
  fun_induction next scanner with
  | case1 line => exact ⟨Nat.le_refl _, Nat.le_refl _⟩
  | case2 line c cs p after token h =>
    rw [(Piece.role_of_token? h).2]
    exact ⟨Nat.le_refl _, Nat.le_add_right _ _⟩
  | case3 line c cs p after h ih => exact ⟨Nat.le_trans (Nat.le_add_right _ _) ih.1, ih.2⟩

/-- No token is on a line before that of the scanner. -/
theorem line_le_token (scanner : Scanner) (count : Nat) : scanner.line ≤ (scanner.token count).line := by
  induction count generalizing scanner with
  | zero => exact (line_next scanner).1
  | succ count ih =>
    exact Nat.le_trans (line_next scanner).1 (Nat.le_trans (line_next scanner).2 (ih scanner.next.2))

/-- **Lines never decrease** from one token to a later one. -/
theorem line_token_le (scanner : Scanner) {first later : Nat} (h : first ≤ later) :
    (scanner.token first).line ≤ (scanner.token later).line := by
  induction first generalizing scanner later with
  | zero =>
    cases later with
    | zero => exact Nat.le_refl _
    | succ later => exact Nat.le_trans (line_next scanner).2 (line_le_token scanner.next.2 later)
  | succ first ih =>
    cases later with
    | zero => omega
    | succ later => exact ih scanner.next.2 (Nat.le_of_succ_le_succ h)

end Scanner

theorem Token.length_ofPieces (line : Nat) (ps : List Piece) :
    (Token.ofPieces line ps).length = (ps.filter Piece.isToken).length := by
  induction ps generalizing line with
  | nil => rfl
  | cons p ps ih =>
    rw [Token.ofPieces, List.length_append, ih, List.filter_cons]
    unfold Piece.token? Piece.isToken
    cases p.role with
    | token kind => exact Nat.add_comm 1 _
    | _ => exact Nat.zero_add _

/-- Before the piece of a token there are as many pieces that are tokens as there are tokens before it. -/
theorem Token.exists_piece_of_getElem? {line count : Nat} {ps : List Piece} {token : Token}
    (h : (Token.ofPieces line ps)[count]? = some token) :
    ∃ before p after, ps = before ++ p :: after ∧ (before.filter Piece.isToken).length = count ∧
      p.token? (line + (before.flatMap Piece.text).count '\n') = some token := by
  obtain ⟨hc, ht⟩ := List.getElem?_eq_some_iff.mp h
  have hsplit : Token.ofPieces line ps =
      (Token.ofPieces line ps).take count ++ token :: (Token.ofPieces line ps).drop (count + 1) := by
    rw [← ht, ← List.drop_eq_getElem_cons hc, List.take_append_drop]
  obtain ⟨before, p, after, hp, hb, hk, _⟩ := Token.exists_piece_of_ofPieces hsplit
  refine ⟨before, p, after, hp, ?_, hk⟩
  rw [← Token.length_ofPieces line, hb, List.length_take, Nat.min_eq_left (Nat.le_of_lt hc)]

/-- The tokens of a text are those that its scanner hands out first. -/
theorem Scanner.token_of_scan {source : String} {count : Nat} {token : Token}
    (h : (Token.scan source)[count]? = some token) : token = (ofSource source).token count := by
  have hs : Token.scan source = (ofSource source).feed.tokens ++ [(ofSource source).feed.atEnd] := rfl
  rw [hs, List.getElem?_append] at h
  rw [token_eq]
  split at h
  · rw [h]
    rfl
  · next hl =>
    rw [List.getElem?_eq_none (Nat.le_of_not_lt hl)]
    exact List.mem_singleton.mp (List.mem_of_getElem? h)

/-- **Every token of a text is on one plus the number of newlines before it**: the token that a scanner hands
out after `count` others is that of the piece with `count` tokens before it, and past the last one it is the end
of the input, on one plus the number of all newlines. So lines never decrease. -/
theorem Scanner.line_token (source : String) :
    (∀ (count : Nat) (token : Token), (Token.scan source)[count]? = some token →
      token = (ofSource source).token count) ∧
    (∀ count, (∃ before p after, pieces source.toList = before ++ p :: after ∧
          source.toList = before.flatMap Piece.text ++ (p.text ++ after.flatMap Piece.text) ∧
          (before.filter Piece.isToken).length = count ∧ p.Yields ((ofSource source).token count) ∧
          ((ofSource source).token count).line = 1 + (before.flatMap Piece.text).count '\n') ∨
        ((pieces source.toList).filter Piece.isToken).length ≤ count ∧
          (ofSource source).token count = Token.atEnd (1 + source.toList.count '\n')) ∧
    ∀ first later, first ≤ later →
      ((ofSource source).token first).line ≤ ((ofSource source).token later).line := by
  refine ⟨fun _ _ h => token_of_scan h, fun count => ?_, fun _ _ h => line_token_le _ h⟩
  rw [token_eq]
  cases h : (ofSource source).feed.tokens[count]? with
  | none =>
    have hlength := Token.length_ofPieces 1 (pieces source.toList)
    exact .inr ⟨hlength ▸ List.getElem?_eq_none_iff.mp h, rfl⟩
  | some token =>
    obtain ⟨before, p, after, hp, hc, hk⟩ := Token.exists_piece_of_getElem? h
    have hm : p ∈ pieces source.toList := hp ▸ List.mem_append_right before List.mem_cons_self
    obtain ⟨c, rest, rfl⟩ := exists_head_of_mem_pieces hm
    refine .inl ⟨before, _, after, hp, ?_, hc, Piece.yields_of_token? hk, (Piece.role_of_token? hk).2⟩
    rw [← List.flatMap_cons, ← List.flatMap_append, ← hp, pieces_flatMap_text]
    rfl

end TinyScript
