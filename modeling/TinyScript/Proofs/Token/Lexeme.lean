import TinyScript.Proofs.Token.Spelling

/-! # The rules of the scanner

Each rule of the scanner is for the texts that a **pattern** matches, and patterns are regular expressions.
The table `Piece.rules` holds all rules, one for each role a piece can have but that of an illegal character.
What each rule allows is also said without patterns, by the shape of the text (`Piece.Role.allows_iff`).
-/

namespace TinyScript

/-- A regular expression, as far as the rules of the scanner need it. -/
inductive Pattern where
  /-- This text and no other. -/
  | exactly (text : String)
  /-- One character that is in one of some ranges. -/
  | within (ranges : List (Char × Char))
  /-- One character but this one. -/
  | except (c : Char)
  /-- One pattern and then another. -/
  | followed (first second : Pattern)
  | optional (pattern : Pattern)
  /-- Any number of times, also none. -/
  | many (pattern : Pattern)
  deriving DecidableEq

namespace Pattern

/-- Whether a pattern matches a text. -/
def Matches : Pattern → List Char → Prop
  | exactly text, cs => cs = text.toList
  | within ranges, cs => ∃ c, cs = [c] ∧ ∃ range ∈ ranges, range.1 ≤ c ∧ c ≤ range.2
  | except other, cs => ∃ c, cs = [c] ∧ c ≠ other
  | followed first second, cs => ∃ xs ys, cs = xs ++ ys ∧ first.Matches xs ∧ second.Matches ys
  | optional pattern, cs => cs = [] ∨ pattern.Matches cs
  | many pattern, cs => ∃ parts : List (List Char), cs = parts.flatten ∧ ∀ part ∈ parts, pattern.Matches part

/-- At least once. -/
def oneOrMore (pattern : Pattern) : Pattern := pattern.followed pattern.many

def blank : Pattern := within [(' ', ' '), ('\t', '\t'), ('\r', '\r'), ('\x0c', '\x0c')]

def digit : Pattern := within [('0', '9')]

def letter : Pattern := within [('a', 'z'), ('A', 'Z'), ('_', '_')]

def letterOrDigit : Pattern := within [('a', 'z'), ('A', 'Z'), ('0', '9'), ('_', '_')]

def number : Pattern := digit.oneOrMore.followed ((exactly ".").followed digit.oneOrMore).optional

def openString : Pattern := (exactly "\"").followed (except '"').many

def closedString : Pattern := openString.followed (exactly "\"")

def identifier : Pattern := letter.followed letterOrDigit.many

def comment : Pattern := (exactly "//").followed (except '\n').many

end Pattern

namespace Piece

/-- The rules for one text each. -/
def exactRules : List (String × Token.Kind) := [
  ("fn", .fnWord), ("let", .letWord), ("true", .trueWord), ("false", .falseWord), ("if", .ifWord),
  ("else", .elseWord), ("and", .andWord), ("or", .orWord), ("return", .returnWord),
  ("==", .equal), ("!=", .notEqual), ("<=", .lessEqual), (">=", .greaterEqual),
  ("=", .assign), ("+", .plus), ("-", .minus), ("!", .bang), ("*", .asterisk), ("/", .slash),
  ("<", .less), (">", .greater),
  (",", .comma), (";", .semicolon), (":", .colon), ("(", .leftParen), (")", .rightParen),
  ("\x7b", .leftBrace), ("\x7d", .rightBrace), ("[", .leftBracket), ("]", .rightBracket)]

/-- The rules of the scanner. -/
def rules : List (Pattern × Role) :=
  [(Pattern.blank.oneOrMore, .blank), (.number, .token .number), (.closedString, .token .string),
    (.openString, .token .openString), (.identifier, .token .identifier), (.comment, .comment),
    (.exactly "\n", .newline)]
    ++ exactRules.map fun rule => (.exactly rule.1, .token rule.2)

/-- Some rule for pieces of a role matches a text. -/
def Role.Allows (role : Role) (text : List Char) : Prop :=
  ∃ pattern, (pattern, role) ∈ rules ∧ pattern.Matches text

/-- The scanner's tables spell what the rules for one text spell. -/
theorem mem_exactRules {rule : String × Token.Kind} :
    rule ∈ exactRules ↔ rule ∈ Token.Kind.spellings := by
  have hl : ∀ rule ∈ exactRules, rule ∈ Token.Kind.spellings := by decide
  have hr : ∀ rule ∈ Token.Kind.spellings, rule ∈ exactRules := by decide
  exact ⟨hl rule, hr rule⟩

theorem isDigit_iff {c : Char} : c.isDigit = true ↔ '0' ≤ c ∧ c ≤ '9' := by
  show (decide ('0' ≤ c) && decide (c ≤ '9')) = true ↔ _
  simp only [Bool.and_eq_true, decide_eq_true_eq]

/-- A word begins with a letter or an underscore. -/
theorem beginsWord_iff {c : Char} :
    beginsWord c = true ↔ ('A' ≤ c ∧ c ≤ 'Z' ∨ 'a' ≤ c ∧ c ≤ 'z') ∨ c = '_' := by
  show ((decide ('A' ≤ c ∧ c ≤ 'Z') || (decide ('a' ≤ c) && decide (c ≤ 'z'))) || c == '_') = true ↔ _
  simp only [Bool.or_eq_true, Bool.and_eq_true, decide_eq_true_eq, beq_iff_eq]

theorem continuesWord_iff {c : Char} :
    continuesWord c = true ↔ beginsWord c = true ∨ c.isDigit = true := by
  show ((c.isAlpha || c.isDigit) || c == '_') = true ↔ (c.isAlpha || c == '_') = true ∨ _
  simp only [Bool.or_eq_true, or_assoc, @or_comm (c.isDigit = true)]

end Piece

namespace Pattern

variable {pattern : Pattern} {p : Char → Bool} {cs : List Char}

/-- A pattern matches the single characters of a class and nothing else. -/
def IsClass (pattern : Pattern) (p : Char → Bool) : Prop :=
  ∀ cs, pattern.Matches cs ↔ ∃ c, cs = [c] ∧ p c = true

/-- A class by ranges holds the characters of its ranges. -/
theorem isClass_within {ranges : List (Char × Char)}
    (h : ∀ c, (∃ range ∈ ranges, range.1 ≤ c ∧ c ≤ range.2) ↔ p c = true) : (within ranges).IsClass p := by
  intro cs
  simp only [Matches, h]

theorem isClass_except (other : Char) : (except other).IsClass (· != other) := by
  intro cs
  simp only [Matches, bne_iff_ne]

/-- A range of one character. -/
theorem le_and_ge_iff {c d : Char} : d ≤ c ∧ c ≤ d ↔ c = d :=
  ⟨fun h => Char.le_antisymm h.2 h.1, fun h => h ▸ ⟨Char.le_refl _, Char.le_refl _⟩⟩

theorem isClass_blank : blank.IsClass Piece.isBlank := by
  refine isClass_within fun c => ?_
  simp only [List.mem_cons, List.not_mem_nil, or_false, exists_eq_or_imp, exists_eq_left, le_and_ge_iff,
    Piece.isBlank, Bool.or_eq_true, beq_iff_eq, or_assoc]

theorem isClass_digit : digit.IsClass Char.isDigit := by
  refine isClass_within fun c => ?_
  simp only [List.mem_singleton, exists_eq_left, Piece.isDigit_iff]

theorem isClass_letter : letter.IsClass Piece.beginsWord := by
  refine isClass_within fun c => ?_
  simp only [List.mem_cons, List.not_mem_nil, or_false, exists_eq_or_imp, exists_eq_left, le_and_ge_iff,
    Piece.beginsWord_iff]
  exact or_assoc.symm.trans (or_congr_left or_comm)

theorem isClass_letterOrDigit : letterOrDigit.IsClass Piece.continuesWord := by
  refine isClass_within fun c => ?_
  simp only [List.mem_cons, List.not_mem_nil, or_false, exists_eq_or_imp, exists_eq_left, le_and_ge_iff,
    Piece.continuesWord_iff, Piece.beginsWord_iff, Piece.isDigit_iff, or_assoc]
  exact or_left_comm.trans (or_congr_right (or_congr_right or_comm))

/-- A class, any number of times: all characters are of it. -/
theorem IsClass.many (h : pattern.IsClass p) : pattern.many.Matches cs ↔ ∀ c ∈ cs, p c = true := by
  constructor
  · rintro ⟨parts, rfl, hp⟩ c hc
    obtain ⟨part, hm, hc⟩ := List.mem_flatten.mp hc
    obtain ⟨d, rfl, hd⟩ := (h part).mp (hp part hm)
    exact List.mem_singleton.mp hc ▸ hd
  · intro hp
    refine ⟨cs.map fun c => [c], ?_, ?_⟩
    · rw [← List.flatMap_def]
      exact (List.flatMap_singleton' cs).symm
    · intro part hm
      obtain ⟨c, hc, rfl⟩ := List.mem_map.mp hm
      exact (h [c]).mpr ⟨c, rfl, hp c hc⟩

/-- A class and then another any number of times. -/
theorem IsClass.followed_many {other : Pattern} {q : Char → Bool} (h : pattern.IsClass p)
    (ho : other.IsClass q) :
    (pattern.followed other.many).Matches cs ↔
      ∃ c rest, cs = c :: rest ∧ p c = true ∧ ∀ d ∈ rest, q d = true := by
  constructor
  · rintro ⟨_, rest, rfl, hf, hr⟩
    obtain ⟨c, rfl, hc⟩ := (h _).mp hf
    exact ⟨c, rest, rfl, hc, ho.many.mp hr⟩
  · rintro ⟨c, rest, rfl, hc, hr⟩
    exact ⟨[c], rest, rfl, (h _).mpr ⟨c, rfl, hc⟩, ho.many.mpr hr⟩

/-- A class, at least once. -/
theorem IsClass.oneOrMore (h : pattern.IsClass p) :
    pattern.oneOrMore.Matches cs ↔ ∃ c rest, cs = c :: rest ∧ p c = true ∧ ∀ d ∈ rest, p d = true :=
  h.followed_many h

/-- Anything but one character, any number of times. -/
theorem matches_many_except {other : Char} : (except other).many.Matches cs ↔ other ∉ cs := by
  rw [(isClass_except other).many]
  simp only [bne_iff_ne]
  exact ⟨fun h hm => h other hm rfl, fun h c hc he => h (he ▸ hc)⟩

/-- A number has digits, and after a point at least one more. -/
theorem matches_number : number.Matches cs ↔
    ∃ c whole, c.isDigit = true ∧ (∀ d ∈ whole, d.isDigit = true) ∧
      (cs = c :: whole ∨ ∃ e fraction, e.isDigit = true ∧ (∀ d ∈ fraction, d.isDigit = true) ∧
        cs = c :: (whole ++ '.' :: e :: fraction)) := by
  constructor
  · rintro ⟨_, _, rfl, hw, rfl | ⟨_, _, rfl, rfl, hf⟩⟩
    · obtain ⟨c, whole, rfl, hc, hw⟩ := isClass_digit.oneOrMore.mp hw
      exact ⟨c, whole, hc, hw, .inl (List.append_nil _)⟩
    · obtain ⟨c, whole, rfl, hc, hw⟩ := isClass_digit.oneOrMore.mp hw
      obtain ⟨e, fraction, rfl, he, hf⟩ := isClass_digit.oneOrMore.mp hf
      exact ⟨c, whole, hc, hw, .inr ⟨e, fraction, he, hf, rfl⟩⟩
  · rintro ⟨c, whole, hc, hw, rfl | ⟨e, fraction, he, hf, rfl⟩⟩
    · have hd := isClass_digit.oneOrMore.mpr ⟨c, whole, rfl, hc, hw⟩
      exact ⟨c :: whole, [], (List.append_nil _).symm, hd, .inl rfl⟩
    · have hd := isClass_digit.oneOrMore.mpr ⟨c, whole, rfl, hc, hw⟩
      refine ⟨c :: whole, '.' :: e :: fraction, rfl, hd, .inr ?_⟩
      exact ⟨['.'], e :: fraction, rfl, rfl, isClass_digit.oneOrMore.mpr ⟨e, fraction, rfl, he, hf⟩⟩

/-- An open string has no second quote. -/
theorem matches_openString : openString.Matches cs ↔ ∃ text, cs = '"' :: text ∧ '"' ∉ text := by
  constructor
  · rintro ⟨_, text, rfl, rfl, ht⟩
    exact ⟨text, rfl, matches_many_except.mp ht⟩
  · rintro ⟨text, rfl, ht⟩
    exact ⟨['"'], text, rfl, rfl, matches_many_except.mpr ht⟩

/-- A closed string has its second quote at its end. -/
theorem matches_closedString :
    closedString.Matches cs ↔ ∃ text, cs = '"' :: (text ++ ['"']) ∧ '"' ∉ text := by
  constructor
  · rintro ⟨_, _, rfl, ho, rfl⟩
    obtain ⟨text, rfl, ht⟩ := matches_openString.mp ho
    exact ⟨text, rfl, ht⟩
  · rintro ⟨text, rfl, ht⟩
    exact ⟨'"' :: text, ['"'], rfl, matches_openString.mpr ⟨text, rfl, ht⟩, rfl⟩

/-- A comment goes on up to the end of its line. -/
theorem matches_comment : comment.Matches cs ↔ ∃ text, cs = '/' :: '/' :: text ∧ '\n' ∉ text := by
  constructor
  · rintro ⟨_, text, rfl, rfl, ht⟩
    exact ⟨text, rfl, matches_many_except.mp ht⟩
  · rintro ⟨text, rfl, ht⟩
    exact ⟨['/', '/'], text, rfl, rfl, matches_many_except.mpr ht⟩

end Pattern

namespace Piece

/-- What the texts that the rules for a role match look like. -/
inductive Role.Shape : Role → List Char → Prop where
  | blank {c : Char} {cs : List Char} (hc : isBlank c = true) (hcs : ∀ d ∈ cs, isBlank d = true) :
    Role.Shape .blank (c :: cs)
  | newline : Role.Shape .newline ['\n']
  | comment {cs : List Char} (h : '\n' ∉ cs) : Role.Shape .comment ('/' :: '/' :: cs)
  | whole {c : Char} {cs : List Char} (hc : c.isDigit = true) (hcs : ∀ d ∈ cs, d.isDigit = true) :
    Role.Shape (.token .number) (c :: cs)
  | decimal {c e : Char} {cs es : List Char} (hc : c.isDigit = true) (hcs : ∀ d ∈ cs, d.isDigit = true)
    (he : e.isDigit = true) (hes : ∀ d ∈ es, d.isDigit = true) :
    Role.Shape (.token .number) (c :: (cs ++ '.' :: e :: es))
  | closedString {cs : List Char} (h : '"' ∉ cs) : Role.Shape (.token .string) ('"' :: (cs ++ ['"']))
  | openString {cs : List Char} (h : '"' ∉ cs) : Role.Shape (.token .openString) ('"' :: cs)
  | identifier {c : Char} {cs : List Char} (hc : beginsWord c = true)
    (hcs : ∀ d ∈ cs, continuesWord d = true) : Role.Shape (.token .identifier) (c :: cs)
  | exactly {cs : List Char} {kind : Token.Kind} (h : (String.ofList cs, kind) ∈ Token.Kind.spellings) :
    Role.Shape (.token kind) cs

/-- What a rule allows, without patterns. -/
theorem Role.allows_iff {role : Role} {text : List Char} : role.Allows text ↔ role.Shape text := by
  constructor
  · rintro ⟨pattern, hm, ht⟩
    simp only [rules, List.cons_append, List.nil_append, List.mem_cons, List.mem_map, Prod.mk.injEq] at hm
    obtain ⟨rfl, rfl⟩ | ⟨rfl, rfl⟩ | ⟨rfl, rfl⟩ | ⟨rfl, rfl⟩ | ⟨rfl, rfl⟩ | ⟨rfl, rfl⟩ | ⟨rfl, rfl⟩ |
      ⟨rule, hr, rfl, rfl⟩ := hm
    · obtain ⟨c, cs, rfl, hc, hcs⟩ := Pattern.isClass_blank.oneOrMore.mp ht
      exact .blank hc hcs
    · obtain ⟨c, cs, hc, hcs, rfl | ⟨e, es, he, hes, rfl⟩⟩ := Pattern.matches_number.mp ht
      · exact .whole hc hcs
      · exact .decimal hc hcs he hes
    · obtain ⟨cs, rfl, h⟩ := Pattern.matches_closedString.mp ht
      exact .closedString h
    · obtain ⟨cs, rfl, h⟩ := Pattern.matches_openString.mp ht
      exact .openString h
    · obtain ⟨c, cs, rfl, hc, hcs⟩ :=
        (Pattern.isClass_letter.followed_many Pattern.isClass_letterOrDigit).mp ht
      exact .identifier hc hcs
    · obtain ⟨cs, rfl, h⟩ := Pattern.matches_comment.mp ht
      exact .comment h
    · obtain rfl : text = ['\n'] := ht
      exact .newline
    · refine .exactly ?_
      rw [show text = rule.1.toList from ht, String.ofList_toList]
      exact mem_exactRules.mp hr
  · have listed : ∀ {pattern : Pattern} {role : Role}, (pattern, role) ∈ rules.take 7 →
        (pattern, role) ∈ rules := List.mem_of_mem_take
    intro h
    cases h with
    | blank hc hcs => exact ⟨_, listed (by decide), Pattern.isClass_blank.oneOrMore.mpr ⟨_, _, rfl, hc, hcs⟩⟩
    | newline => exact ⟨.exactly "\n", listed (by decide), rfl⟩
    | comment h => exact ⟨_, listed (by decide), Pattern.matches_comment.mpr ⟨_, rfl, h⟩⟩
    | whole hc hcs =>
      exact ⟨_, listed (by decide), Pattern.matches_number.mpr ⟨_, _, hc, hcs, .inl rfl⟩⟩
    | decimal hc hcs he hes =>
      exact ⟨_, listed (by decide), Pattern.matches_number.mpr ⟨_, _, hc, hcs, .inr ⟨_, _, he, hes, rfl⟩⟩⟩
    | closedString h => exact ⟨_, listed (by decide), Pattern.matches_closedString.mpr ⟨_, rfl, h⟩⟩
    | openString h => exact ⟨_, listed (by decide), Pattern.matches_openString.mpr ⟨_, rfl, h⟩⟩
    | identifier hc hcs =>
      exact ⟨_, listed (by decide),
        (Pattern.isClass_letter.followed_many Pattern.isClass_letterOrDigit).mpr ⟨_, _, rfl, hc, hcs⟩⟩
    | @exactly cs kind h =>
      refine ⟨_, List.mem_append_right _ (List.mem_map_of_mem (mem_exactRules.mpr h)), ?_⟩
      exact String.toList_ofList.symm

end Piece

end TinyScript
