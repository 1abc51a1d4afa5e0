import TinyScript.Proofs.Token.Lines

/-! # Tokens that are printed

Tokens are printed with one space between any two of them, each as its kind and literal have it: a string gets its
quotes back, one that is not closed its opening quote, and everything else is its literal. A token is **printable**
if its literal is one that the rule for its kind allows. Then its text is one piece (`Token.Printable.pieces_eq`),
which a space behind it does not lengthen, and so **the tokens of what is printed are those that were printed**,
each on the line that the newlines of the strings before it lead to (`Token.scan_print`). Only a string that is not
closed takes in what is printed behind it, and has to come last.
-/

namespace TinyScript

namespace Token

/-- The text of a token. -/
def printed (token : Token) : String :=
  match token.kind with
  | .string => "\"" ++ token.literal ++ "\""
  | .openString => "\"" ++ token.literal
  | _ => token.literal

/-- The text of tokens, one space between any two. -/
def print (tokens : List Token) : String :=
  " ".intercalate (tokens.map printed)

/-- A token whose literal is one that tokens of its kind have. -/
inductive Printable : Token → Prop where
  /-- A name is no word of the language. -/
  | identifier {literal : String} {line : Nat} (h : Pattern.identifier.Matches literal.toList)
    (hk : ∀ kind, (literal, kind) ∉ Kind.keywords) : Printable ⟨.identifier, literal, line⟩
  | number {literal : String} {line : Nat} (h : Pattern.number.Matches literal.toList) :
    Printable ⟨.number, literal, line⟩
  | string {literal : String} {line : Nat} (h : '"' ∉ literal.toList) : Printable ⟨.string, literal, line⟩
  | openString {literal : String} {line : Nat} (h : '"' ∉ literal.toList) : Printable ⟨.openString, literal, line⟩
  /-- No text that a rule allows begins with an illegal character. -/
  | illegal {c : Char} {line : Nat}
    (h : ∀ (role : Piece.Role) (text : List Char), role.Allows text → text.head? ≠ some c) :
    Printable ⟨.illegal, String.ofList [c], line⟩
  /-- Operators, delimiters and words of the language have one text each. -/
  | exactly {kind : Kind} {literal : String} {line : Nat} (h : (literal, kind) ∈ Piece.exactRules) :
    Printable ⟨kind, literal, line⟩

/-- How many newlines the strings among tokens hold. -/
def brokenLines (tokens : List Token) : Nat :=
  ((tokens.filter fun token => token.kind = .string ∨ token.kind = .openString).flatMap
    fun token => token.literal.toList).count '\n'

/-- Each token breaks the lines that its own literal breaks. -/
theorem brokenLines_cons (token : Token) (tokens : List Token) :
    brokenLines (token :: tokens) = brokenLines [token] + brokenLines tokens := by
  unfold brokenLines
  rw [← List.count_append, ← List.flatMap_append, ← List.filter_append]
  rfl

/-! ## The text of one token -/

variable {token : Token}

/-- All tokens but strings are printed as their literals. -/
theorem printed_of_ne {kind : Kind} (h : kind ≠ .string ∧ kind ≠ .openString) (literal : String) (line : Nat) :
    printed ⟨kind, literal, line⟩ = literal := by
  unfold printed
  split
  · next hk => exact absurd hk h.1
  · next hk => exact absurd hk h.2
  · rfl

theorem brokenLines_of_ne {kind : Kind} (h : kind ≠ .string ∧ kind ≠ .openString) (literal : String) (line : Nat) :
    brokenLines [⟨kind, literal, line⟩] = 0 := by
  unfold brokenLines
  rw [List.filter_cons_of_neg (by simpa using h)]
  rfl

theorem toList_printed_string (literal : String) (line : Nat) :
    (printed ⟨.string, literal, line⟩).toList = '"' :: (literal.toList ++ ['"']) := by
  show ("\"" ++ literal ++ "\"").toList = _
  rw [String.toList_append, String.toList_append]
  rfl

theorem toList_printed_openString (literal : String) (line : Nat) :
    (printed ⟨.openString, literal, line⟩).toList = '"' :: literal.toList := by
  show ("\"" ++ literal).toList = _
  rw [String.toList_append]
  rfl

namespace Printable

/-- The rule for its kind allows the text of a token that is not illegal. -/
theorem shape (h : token.Printable) (hi : token.kind ≠ .illegal) :
    Piece.Role.Shape (.token token.kind) token.printed.toList := by
  cases h with
  | identifier h =>
    obtain ⟨c, cs, ht, hc, hcs⟩ := (Pattern.isClass_letter.followed_many Pattern.isClass_letterOrDigit).mp h
    rw [printed_of_ne (by decide), ht]
    exact .identifier hc hcs
  | number h =>
    rw [printed_of_ne (by decide)]
    obtain ⟨c, cs, hc, hcs, ht | ⟨e, es, he, hes, ht⟩⟩ := Pattern.matches_number.mp h
    · rw [ht]
      exact .whole hc hcs
    · rw [ht]
      exact .decimal hc hcs he hes
  | string h =>
    rw [toList_printed_string]
    exact .closedString h
  | openString h =>
    rw [toList_printed_openString]
    exact .openString h
  | illegal => exact absurd rfl hi
  | exactly h =>
    have hk : ∀ rule ∈ Piece.exactRules, rule.2 ≠ .string ∧ rule.2 ≠ .openString := by decide
    rw [printed_of_ne (hk _ h)]
    refine .exactly ?_
    rw [String.ofList_toList]
    exact Piece.mem_exactRules.mp h

/-- The text of an illegal token is a character that no rule is for. -/
theorem exists_char (h : token.Printable) (hi : token.kind = .illegal) :
    ∃ c, token = ⟨.illegal, String.ofList [c], token.line⟩ ∧
      ∀ (role : Piece.Role) (text : List Char), role.Allows text → text.head? ≠ some c := by
  cases h with
  | illegal h => exact ⟨_, rfl, h⟩
  | exactly h =>
    obtain rfl : _ = Kind.illegal := hi
    exact absurd (List.mem_map_of_mem h) (by decide : .illegal ∉ Piece.exactRules.map Prod.snd)
  | _ => cases hi

/-- A printed name is spelled as nothing else. -/
theorem not_mem_exactRules (h : token.Printable) (hi : token.kind = .identifier) (kind : Kind) :
    (token.literal, kind) ∉ Piece.exactRules := by
  cases h with
  | @identifier literal _ hm hk =>
    obtain ⟨c, cs, ht, hc, _⟩ := (Pattern.isClass_letter.followed_many Pattern.isClass_letterOrDigit).mp hm
    obtain rfl : literal = String.ofList (c :: cs) := String.toList_injective (ht.trans String.toList_ofList.symm)
    exact fun hr => hk kind (Piece.mem_keywords_of_beginsWord hc (Piece.mem_exactRules.mp hr))
  | exactly h =>
    obtain rfl : _ = Kind.identifier := hi
    exact absurd (List.mem_map_of_mem h) (by decide : .identifier ∉ Piece.exactRules.map Prod.snd)
  | _ => cases hi

/-- The text of a token has to be taken whole. -/
theorem leads (h : token.Printable) :
    (Piece.mk (.token token.kind) token.printed.toList).Leads token.printed.toList := by
  by_cases hi : token.kind = .illegal
  · obtain ⟨c, ht, hc⟩ := h.exists_char hi
    have hl : token.printed.toList = [c] := by
      rw [ht, printed_of_ne (by decide), String.toList_ofList]
    rw [hl, hi]
    refine .unruled c rfl rfl fun role text ha hp => ?_
    -- what is allowed here is not empty, so it would begin with the character
    obtain ⟨rest, rfl, _⟩ := ha.exists_within hp
    exact hc role _ ha rfl
  · refine .ruled (List.prefix_refl _) (Piece.Role.allows_iff.mpr (h.shape hi)) (fun _ _ _ hp => hp.length_le) ?_
    intro hr kind
    have hk : token.kind = .identifier := Piece.Role.token.inj hr
    obtain ⟨_, literal, line⟩ := token
    subst hk
    rw [printed_of_ne (by decide), String.ofList_toList]
    exact h.not_mem_exactRules rfl kind

/-- **The text of a printable token is one piece.** -/
theorem pieces_eq (h : token.Printable) :
    pieces token.printed.toList = [⟨.token token.kind, token.printed.toList⟩] := by
  have hl : (Piece.mk (.token token.kind) token.printed.toList).Leads (token.printed.toList ++ []) := by
    rw [List.append_nil]
    exact h.leads
  have hc := cut_iff.mp (Cut.cons hl .nil)
  rw [List.append_nil] at hc
  exact hc.symm

/-- The newlines of a text are those of its string. -/
theorem count_newline (h : token.Printable) : token.printed.toList.count '\n' = brokenLines [token] := by
  by_cases hi : token.kind = .illegal
  · obtain ⟨c, ht, hc⟩ := h.exists_char hi
    have hn : c ≠ '\n' := by
      rintro rfl
      exact hc .newline ['\n'] (Piece.Role.allows_iff.mpr .newline) rfl
    rw [ht, printed_of_ne (by decide), brokenLines_of_ne (by decide), String.toList_ofList]
    exact List.count_eq_zero.mpr fun hm => hn (List.mem_singleton.mp hm).symm
  obtain ⟨kind, literal, line⟩ := token
  by_cases hs : kind = .string
  · subst hs
    rw [toList_printed_string, List.count_cons_of_ne (by decide), List.count_append]
    simp [brokenLines]
  by_cases ho : kind = .openString
  · subst ho
    rw [toList_printed_openString, List.count_cons_of_ne (by decide)]
    simp [brokenLines]
  · rw [(h.shape hi).count_newline, Piece.counted_of_ne ⟨hs, ho⟩, brokenLines_of_ne ⟨hs, ho⟩]

end Printable

/-- The piece of a token gives it back, on whatever line. -/
theorem token?_printed (token : Token) (line : Nat) :
    (Piece.mk (.token token.kind) token.printed.toList).token? line = some ⟨token.kind, token.literal, line⟩ := by
  obtain ⟨kind, literal, _⟩ := token
  cases kind with
  | string =>
    have hl : Piece.literal .string ('"' :: (literal.toList ++ ['"'])) = literal.toList := List.dropLast_concat
    rw [toList_printed_string]
    simp only [Piece.token?, hl, String.ofList_toList]
  | openString =>
    rw [toList_printed_openString]
    simp only [Piece.token?, Piece.literal, List.tail_cons, String.ofList_toList]
  | _ => simp only [Piece.token?, Piece.literal, printed, String.ofList_toList]

/-! ## The text of all tokens -/

/-- A space behind a token is a piece of its own, if no blank follows it. -/
theorem pieces_space {cs : List Char} (h : ∀ c ∈ cs.head?, Piece.isBlank c = false) :
    pieces (' ' :: cs) = ⟨.blank, [' ']⟩ :: pieces cs := by
  have ht : Piece.tail ' ' cs = (.blank, []) := by
    rw [Piece.tail_of_isBlank rfl, ← List.nil_append cs, Piece.takeWhile_append h]
    rfl
  rw [pieces_cons, Piece.head, ht]
  rfl

/-- No text that is a token begins with a blank. -/
theorem Printable.not_isBlank (h : token.Printable) (rest : List Char) :
    ∀ c ∈ (token.printed.toList ++ rest).head?, Piece.isBlank c = false := by
  have hp := h.pieces_eq
  intro c hc
  generalize token.printed.toList = text at hp hc
  cases text with
  | nil =>
    rw [pieces] at hp
    cases hp
  | cons d cs =>
    cases hc
    rw [pieces_cons] at hp
    have hr := congrArg Piece.role (List.cons.inj hp).1
    refine Bool.eq_false_iff.mpr fun hb => ?_
    rw [Piece.head, Piece.tail_of_isBlank hb] at hr
    cases hr

theorem print_singleton (token : Token) : print [token] = token.printed :=
  String.intercalate_singleton

theorem toList_print_cons_cons (token next : Token) (tokens : List Token) :
    (print (token :: next :: tokens)).toList = token.printed.toList ++ ' ' :: (print (next :: tokens)).toList := by
  unfold print
  rw [List.map_cons, List.map_cons, String.intercalate_cons_cons, String.toList_append, String.toList_append,
    List.append_assoc]
  rfl

theorem exists_toList_print_cons (token : Token) (tokens : List Token) :
    ∃ rest, (print (token :: tokens)).toList = token.printed.toList ++ rest := by
  cases tokens with
  | nil => exact ⟨[], by rw [print_singleton, List.append_nil]⟩
  | cons next tokens => exact ⟨_, toList_print_cons_cons token next tokens⟩

/-- A space stands between the pieces of a token and those of the tokens behind it. -/
theorem Printable.pieces_print {next : Token} (h : token.Printable) (ho : token.kind ≠ .openString)
    (hn : next.Printable) (tokens : List Token) :
    pieces (print (token :: next :: tokens)).toList =
      ⟨.token token.kind, token.printed.toList⟩ :: ⟨.blank, [' ']⟩ :: pieces (print (next :: tokens)).toList := by
  obtain ⟨rest, hr⟩ := exists_toList_print_cons next tokens
  have hk : token.kind.stopsBefore ' ' = true := by
    cases hk : token.kind <;> first | rfl | exact absurd hk ho
  have hs : ∀ p ∈ pieces token.printed.toList, ∀ c ∈ (' ' :: (print (next :: tokens)).toList).head?,
      p.role.stopsBefore c = true := by
    rw [h.pieces_eq]
    rintro p hm _ ⟨⟩
    obtain rfl := List.mem_singleton.mp hm
    exact hk
  rw [toList_print_cons_cons, pieces_append hs, h.pieces_eq, pieces_space]
  · rfl
  · rw [hr]
    exact hn.not_isBlank rest

variable {tokens : List Token}

/-- **What is printed has the printed tokens**, on lines that the strings lead to. -/
theorem ofPieces_print (h : ∀ token ∈ tokens, token.Printable)
    (ho : ∀ token ∈ tokens.dropLast, token.kind ≠ .openString) (line : Nat) :
    ofPieces line (pieces (print tokens).toList) =
      tokens.mapIdx fun count token => ⟨token.kind, token.literal, line + brokenLines (tokens.take count)⟩ := by
  induction tokens generalizing line with
  | nil =>
    show ofPieces line (pieces []) = []
    rw [pieces]
    rfl
  | cons token tokens ih =>
    have ht := h token List.mem_cons_self
    have hl (count : Nat) : line + brokenLines ((token :: tokens).take (count + 1)) =
        line + brokenLines [token] + brokenLines (tokens.take count) := by
      rw [List.take_succ_cons, brokenLines_cons, Nat.add_assoc]
    rw [List.mapIdx_cons]
    simp only [hl]
    cases tokens with
    | nil =>
      rw [print_singleton, ht.pieces_eq, ofPieces, token?_printed]
      rfl
    | cons next tokens =>
      have hn := h next (List.mem_cons_of_mem token List.mem_cons_self)
      rw [ht.pieces_print (ho token List.mem_cons_self) hn, ofPieces, token?_printed, ofPieces]
      rw [← ih (fun other hm => h other (List.mem_cons_of_mem token hm))
        fun other hm => ho other (List.mem_cons_of_mem token hm)]
      show _ :: ofPieces (line + token.printed.toList.count '\n') _ = _
      rw [ht.count_newline]
      rfl

/-- Only strings break lines. -/
theorem count_newline_print (h : ∀ token ∈ tokens, token.Printable) :
    (print tokens).toList.count '\n' = brokenLines tokens := by
  induction tokens with
  | nil => rfl
  | cons token tokens ih =>
    have ht := (h token List.mem_cons_self).count_newline
    cases tokens with
    | nil => rw [print_singleton, ht]
    | cons next tokens =>
      rw [toList_print_cons_cons, List.count_append, List.count_cons_of_ne (by decide), ht,
        brokenLines_cons token (next :: tokens), ih fun other hm => h other (List.mem_cons_of_mem token hm)]

/-- **Scanning undoes printing.** The tokens of printed tokens are those tokens again and the end of the input, each
on one plus the newlines in the strings before it. -/
theorem scan_print (h : ∀ token ∈ tokens, token.Printable)
    (ho : ∀ token ∈ tokens.dropLast, token.kind ≠ .openString) :
    scan (print tokens) =
      (tokens ++ [atEnd 0]).mapIdx fun count token =>
        ⟨token.kind, token.literal, 1 + brokenLines (tokens.take count)⟩ := by
  unfold scan Feed.ofSource
  rw [ofPieces_print h ho, count_newline_print h, List.mapIdx_concat, List.take_length]
  rfl

/-- Neither two slashes nor three equals signs come together, and what looks like a comment is part of a string. -/
theorem scan_print_neighbours :
    let tokens : List Token := [⟨.letWord, "let", 0⟩, ⟨.identifier, "letter", 0⟩, ⟨.assign, "=", 0⟩,
      ⟨.equal, "==", 0⟩, ⟨.number, "1.5", 0⟩, ⟨.slash, "/", 0⟩, ⟨.slash, "/", 0⟩, ⟨.string, "a\n// b", 0⟩,
      ⟨.illegal, "@", 0⟩, ⟨.openString, "c\nd", 0⟩]
    (∀ token ∈ tokens, token.Printable) ∧ (∀ token ∈ tokens.dropLast, token.kind ≠ .openString) ∧
      print tokens = "let letter = == 1.5 / / \"a\n// b\" @ \"c\nd" ∧
      scan (print tokens) = [⟨.letWord, "let", 1⟩, ⟨.identifier, "letter", 1⟩, ⟨.assign, "=", 1⟩,
        ⟨.equal, "==", 1⟩, ⟨.number, "1.5", 1⟩, ⟨.slash, "/", 1⟩, ⟨.slash, "/", 1⟩, ⟨.string, "a\n// b", 1⟩,
        ⟨.illegal, "@", 2⟩, ⟨.openString, "c\nd", 2⟩, ⟨.endOfInput, "", 3⟩] := by
  intro tokens
  have hname : Pattern.identifier.Matches "letter".toList :=
    (Pattern.isClass_letter.followed_many Pattern.isClass_letterOrDigit).mpr
      ⟨'l', "etter".toList, rfl, by decide, List.all_eq_true.mp rfl⟩
  have hword (kind : Kind) : ("letter", kind) ∉ Kind.keywords := fun hm =>
    absurd (List.mem_map_of_mem hm) (by decide : "letter" ∉ Kind.keywords.map Prod.fst)
  have hnumber : Pattern.number.Matches "1.5".toList :=
    Pattern.matches_number.mpr
      ⟨'1', [], rfl, List.forall_mem_nil _, .inr ⟨'5', [], rfl, List.forall_mem_nil _, rfl⟩⟩
  have htail (cs : List Char) : (Piece.tail '@' cs).1 = .token .illegal := by
    cases cs with
    | nil => rfl
    | cons c cs =>
      by_cases hc : c = '='
      · rw [hc]
        rfl
      · show (Piece.symbolTail '@' (c :: cs)).1 = _
        rw [Piece.symbolTail_cons, if_neg hc, if_neg fun he => absurd he.1 (by decide)]
        rfl
  have hillegal : ∀ (role : Piece.Role) (text : List Char), role.Allows text → text.head? ≠ some '@' := by
    intro role text ha hc
    obtain ⟨rest, rfl⟩ := List.head?_eq_some_iff.mp hc
    obtain ⟨_, _, _, hw⟩ := ha.exists_within (List.prefix_refl _)
    exact hw.ne_illegal (htail rest)
  have hp : ∀ token ∈ tokens, token.Printable := by
    simp only [tokens, List.forall_mem_cons]
    exact ⟨.exactly (by decide), .identifier hname hword, .exactly (by decide), .exactly (by decide),
      .number hnumber, .exactly (by decide), .exactly (by decide), .string (by decide), .illegal hillegal,
      .openString (by decide), fun _ h => nomatch h⟩
  have ho : ∀ token ∈ tokens.dropLast, token.kind ≠ .openString := by decide
  exact ⟨hp, ho, by decide, (scan_print hp ho).trans (by decide)⟩

end Token

end TinyScript
