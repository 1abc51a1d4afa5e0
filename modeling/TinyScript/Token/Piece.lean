import TinyScript.Token.Basic

/-! # Pieces of a source text

A source text is cut, end to end, into **pieces**: runs of blanks, newlines, comments, and the texts of
tokens. The piece at the head of a text is the longest one that some rule allows there; a character that
no rule allows is an illegal piece of its own. Nothing is lost: the pieces of a text, joined, are the
text (`pieces_flatMap_text`).
-/

namespace TinyScript

/-- What a piece is for. -/
inductive Piece.Role where
  | blank
  | newline
  | comment
  | token (kind : Token.Kind)
  deriving DecidableEq

/-- A part of a source text. -/
structure Piece where
  role : Piece.Role
  text : List Char
  deriving DecidableEq

namespace Piece

/-- Blanks separate tokens and count no lines: space, tab, carriage return, form feed. -/
def isBlank (c : Char) : Bool :=
  c == ' ' || c == '\t' || c == '\r' || c == '\x0c'

/-- Letters and the low line may begin a word. -/
def beginsWord (c : Char) : Bool :=
  c.isAlpha || c == '_'

/-- Letters, the low line and digits may continue a word. -/
def continuesWord (c : Char) : Bool :=
  c.isAlphanum || c == '_'

/-- What a number continues with after its first digits: a point and more digits, or nothing. -/
def fraction : List Char → List Char
  | '.' :: d :: cs => if d.isDigit then '.' :: d :: cs.takeWhile Char.isDigit else []
  | _ => []

/-- What a string continues with after its opening quote: everything up to the closing quote and the
quote, or everything there is. -/
def stringTail (cs : List Char) : Role × List Char :=
  match cs.dropWhile (· != '"') with
  | [] => (.token .openString, cs)
  | _ :: _ => (.token .string, cs.takeWhile (· != '"') ++ ['"'])

/-- The longest piece that begins with an operator, a delimiter or a character of no rule. -/
def symbolTail (c : Char) (cs : List Char) : Role × List Char :=
  match c, cs with
  | '/', '/' :: rest => (.comment, '/' :: rest.takeWhile (· != '\n'))
  | c, '=' :: _ =>
    match Token.Kind.longSymbols.lookup c with
    | some kind => (.token kind, ['='])
    | none => (.token ((Token.Kind.symbols.lookup c).getD .illegal), [])
  | c, _ => (.token ((Token.Kind.symbols.lookup c).getD .illegal), [])

/-- The role of the piece at the head of `c :: cs`, and what it takes from `cs`. -/
def tail (c : Char) (cs : List Char) : Role × List Char :=
  if c = '\n' then (.newline, [])
  else if isBlank c then (.blank, cs.takeWhile isBlank)
  else if c.isDigit then
    let digits := cs.takeWhile Char.isDigit
    (.token .number, digits ++ fraction (cs.drop digits.length))
  else if c = '"' then stringTail cs
  else if beginsWord c then
    let word := cs.takeWhile continuesWord
    (.token (Token.Kind.ofWord (String.ofList (c :: word))), word)
  else symbolTail c cs

theorem fraction_prefix (cs : List Char) : fraction cs <+: cs := by
  unfold fraction
  split
  · split
    · simp only [List.cons_prefix_cons, List.takeWhile_prefix, and_self]
    · exact List.nil_prefix
  · exact List.nil_prefix

/-- A string takes what stands next in the text, be it closed or not. -/
theorem stringTail_prefix (cs : List Char) : (stringTail cs).2 <+: cs := by
  unfold stringTail
  split
  · exact List.prefix_refl cs
  · next c rest h =>
    have hc := List.head?_dropWhile_not (· != '"') cs
    rw [h] at hc
    obtain rfl : c = '"' := by simpa using hc
    exact ⟨rest, by rw [List.append_assoc, List.singleton_append, ← h, List.takeWhile_append_dropWhile]⟩

theorem symbolTail_prefix (c : Char) (cs : List Char) : (symbolTail c cs).2 <+: cs := by
  unfold symbolTail
  split
  · simp only [List.cons_prefix_cons, List.takeWhile_prefix, and_self]
  · split <;> simp
  · exact List.nil_prefix

/-- A piece takes the beginning of the text that follows its first character. -/
theorem tail_prefix (c : Char) (cs : List Char) : (tail c cs).2 <+: cs := by
  unfold tail
  split
  · exact List.nil_prefix
  split
  · exact List.takeWhile_prefix _
  split
  · obtain ⟨rest, h⟩ := List.takeWhile_prefix (l := cs) Char.isDigit
    have hd : cs.drop (cs.takeWhile Char.isDigit).length = rest :=
      (congrArg (List.drop _) h.symm).trans List.drop_left
    show cs.takeWhile Char.isDigit ++ fraction (cs.drop (cs.takeWhile Char.isDigit).length) <+: cs
    obtain ⟨more, hm⟩ := fraction_prefix rest
    exact ⟨more, by rw [hd, List.append_assoc, hm, h]⟩
  split
  · exact stringTail_prefix cs
  split
  · exact List.takeWhile_prefix _
  · exact symbolTail_prefix c cs

/-- The piece at the head of `c :: cs`. -/
def head (c : Char) (cs : List Char) : Piece :=
  ⟨(tail c cs).1, c :: (tail c cs).2⟩

/-- How many newlines a piece holds. -/
def newlines (p : Piece) : Nat :=
  p.text.count '\n'

/-- The text between the quotes of a string, or the whole text of any other token. -/
def literal (kind : Token.Kind) (text : List Char) : List Char :=
  match kind with
  | .string => text.tail.dropLast
  | .openString => text.tail
  | _ => text

/-- The token of a piece that stands on a line, if it is one. -/
def token? (p : Piece) (line : Nat) : Option Token :=
  match p.role with
  | .token kind => some ⟨kind, String.ofList (literal kind p.text), line⟩
  | _ => none

end Piece

/-- The pieces of a text. -/
def pieces : List Char → List Piece
  | [] => []
  | c :: cs => Piece.head c cs :: pieces (cs.drop (Piece.tail c cs).2.length)
termination_by cs => cs.length
decreasing_by simp only [List.length_drop, List.length_cons]; omega

/-- **Nothing is lost**: the pieces of a text, joined, are the text. -/
theorem pieces_flatMap_text (cs : List Char) : (pieces cs).flatMap Piece.text = cs := by
  fun_induction pieces cs with
  | case1 => rfl
  | case2 c cs ih =>
    obtain ⟨rest, h⟩ := Piece.tail_prefix c cs
    have hd : cs.drop (Piece.tail c cs).2.length = rest :=
      (congrArg (List.drop _) h.symm).trans List.drop_left
    rw [List.flatMap_cons, ih, hd]
    show c :: ((Piece.tail c cs).2 ++ rest) = c :: cs
    rw [h]

end TinyScript
