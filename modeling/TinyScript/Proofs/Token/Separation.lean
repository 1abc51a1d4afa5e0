import TinyScript.Proofs.Token.Cutting

/-! # Newlines separate texts

A newline ends every piece of a text but a string that is not closed. So a text behind a newline is cut as it is cut
alone, and its tokens are the ones that it has alone, on lines that are counted on from the text in front
(`Feed.ofSource_newline`). **Texts may be scanned line by line and their tokens be put together**, wherever no string
is open at the end of a line (`Token.scan_newline`).
-/

namespace TinyScript

/-- Tokens that are counted from a later line are those counted from the first, moved down. -/
theorem Token.ofPieces_add (line more : Nat) (ps : List Piece) :
    Token.ofPieces (line + more) ps = (Token.ofPieces line ps).map (Token.relined (· + more)) := by
  induction ps generalizing line with
  | nil => rfl
  | cons p ps ih =>
    have hp : (p.token? (line + more)).toList = (p.token? line).toList.map (Token.relined (· + more)) := by
      unfold Piece.token?
      cases p.role <;> rfl
    rw [Token.ofPieces, Token.ofPieces, List.map_append, hp, Nat.add_right_comm, ih]

/-- The second pieces start on the line where the first ones end. -/
theorem Token.ofPieces_append (line : Nat) (ps others : List Piece) :
    Token.ofPieces line (ps ++ others) =
      Token.ofPieces line ps ++ Token.ofPieces (line + (ps.flatMap Piece.text).count '\n') others := by
  induction ps generalizing line with
  | nil => rfl
  | cons p ps ih =>
    rw [List.cons_append, Token.ofPieces, ih, Token.ofPieces, List.append_assoc, List.flatMap_cons,
      List.count_append, ← Nat.add_assoc]
    rfl

/-- The feed of a text behind another one and a newline. -/
theorem Feed.ofSource_newline {source : String} (other : String)
    (h : ∀ token ∈ (Token.ofText source.toList).getLast?, token.kind ≠ .openString) :
    let rest := (Feed.ofSource other).relined (· + (1 + source.toList.count '\n'))
    Feed.ofSource (source ++ "\n" ++ other) = ⟨(Feed.ofSource source).tokens ++ rest.tokens, rest.lastLine⟩ := by
  have hl : (source ++ "\n" ++ other).toList = source.toList ++ '\n' :: other.toList := by
    rw [String.toList_append, String.toList_append, List.append_assoc]
    rfl
  have hc : (source.toList ++ '\n' :: other.toList).count '\n' =
      other.toList.count '\n' + (1 + source.toList.count '\n') := by
    rw [List.count_append, List.count_cons_self]
    omega
  have hn : Token.ofPieces (1 + source.toList.count '\n') (⟨.newline, ['\n']⟩ :: pieces other.toList) =
      (Token.ofPieces 1 (pieces other.toList)).map (Token.relined (· + (1 + source.toList.count '\n'))) := by
    rw [← Token.ofPieces_add, Nat.add_comm 1 (1 + _)]
    rfl
  unfold Feed.ofSource
  rw [hl, hc, pieces_append_newline _ h, Token.ofPieces_append, pieces_flatMap_text, hn, ← Nat.add_assoc]
  rfl

/-- Where no token of a text is a string that is not closed, its last token is none either, lines aside. -/
theorem Token.ne_openString_of_scan {source : String} (h : ∀ token ∈ Token.scan source, token.kind ≠ .openString) :
    ∀ token ∈ (Token.ofText source.toList).getLast?, token.kind ≠ .openString := by
  intro token hm
  have hu : token ∈ Token.ofText source.toList := List.mem_of_mem_getLast? hm
  rw [← Token.map_unlined_ofSource] at hu
  obtain ⟨lined, hl, rfl⟩ := List.mem_map.mp hu
  exact h lined (List.mem_append_left _ hl)

/-- **A newline is a clean cut.** Behind a text in which every string is closed, and a newline, another text has the
tokens that it has alone, further down by the lines of the first text. -/
theorem Token.scan_newline {first : String} (second : String)
    (h : ∀ token ∈ Token.scan first, token.kind ≠ .openString) :
    Token.scan (first ++ "\n" ++ second) =
      (Token.scan first).dropLast ++
        (Token.scan second).map (Token.relined (· + (1 + first.toList.count '\n'))) := by
  unfold Token.scan
  rw [Feed.ofSource_newline second (Token.ne_openString_of_scan h), List.dropLast_concat, List.map_append,
    ← List.append_assoc]
  rfl

/-- Neither a point behind a number, nor an operator, nor a comment goes on behind a newline. -/
theorem Token.scan_newline_comment :
    let first := "\"p\nq\" 5. < // r"
    let second := "= 6\n\"s"
    let faces (tokens : List Token) := tokens.map fun token => (token.kind, token.line)
    (∀ token ∈ Token.scan first, token.kind ≠ .openString) ∧
      Token.scan (first ++ "\n" ++ second) =
        (Token.scan first).dropLast ++
          (Token.scan second).map (Token.relined (· + (1 + first.toList.count '\n'))) ∧
      faces (Token.scan (first ++ "\n" ++ second)) = [(.string, 1), (.number, 2), (.illegal, 2), (.less, 2),
        (.assign, 3), (.number, 3), (.openString, 4), (.endOfInput, 4)] := by
  intro first second faces
  have h : ∀ token ∈ Token.scan first, token.kind ≠ .openString := by decide +kernel
  exact ⟨h, Token.scan_newline second h, by decide +kernel⟩

end TinyScript
