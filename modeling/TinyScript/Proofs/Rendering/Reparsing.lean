import TinyScript.Proofs.Layout.Objects
import TinyScript.Proofs.Layout.Sources
import TinyScript.Proofs.Rendering.Scanning

/-! # Programs are read back from their texts

A program is written back with parentheses of its own around every operator, but with nothing between
statements except the semicolons that some of them end with. So its text can be read where nothing needs to
stand between: where there is no conditional, and an expression is a statement only at the end of the program
or of the body of a function. **The text of such a program is read without an error, as the program that it is
the text of** (`Statement.RenderableAll.parse_render`).
-/

namespace TinyScript

/-- A name that is scanned as one identifier. -/
def Ident.Renderable (name : Ident) : Prop :=
  pieces name.name.toList = [⟨.token .identifier, name.name.toList⟩]

/-- Whether the text of a statement shows where it ends. -/
def Statement.endsItself : Statement → Bool
  | .bind _ _ _ => true
  | .leave _ _ => true
  | .expression _ _ => false
  | .block _ => false

mutual

/-- An expression that can be read back from its text. -/
def Expr.Renderable : Expr → Prop
  | .ident name => name.Renderable
  | .number value _ => ∃ rank, value = .finite false rank
  | .boolean _ _ => True
  | .string value _ => '"' ∉ value.toList
  | .array elements _ => Expr.RenderableAll elements
  | .hash entries _ => Expr.RenderableEntries entries
  | .unary _ operand _ => operand.Renderable
  | .binary _ left right _ => left.Renderable ∧ right.Renderable
  | .conditional _ _ _ _ => False
  | .function parameters body _ => (∀ name ∈ parameters, name.Renderable) ∧ body.Renderable
  | .call callee arguments _ => callee.Renderable ∧ Expr.RenderableAll arguments
  | .index collection position _ => collection.Renderable ∧ position.Renderable

/-- Expressions that can be read back from their texts. -/
def Expr.RenderableAll : List Expr → Prop
  | [] => True
  | e :: es => e.Renderable ∧ Expr.RenderableAll es

/-- Entries of a hash that can be read back from their texts. -/
def Expr.RenderableEntries : List (Expr × Expr) → Prop
  | [] => True
  | (key, value) :: entries => (key.Renderable ∧ value.Renderable) ∧ Expr.RenderableEntries entries

/-- A statement that can be read back from its text. -/
def Statement.Renderable : Statement → Prop
  | .bind name value _ => name.Renderable ∧ value.Renderable
  | .leave none _ => True
  | .leave (some value) _ => value.Renderable
  | .expression value _ => value.Renderable
  | .block _ => False

/-- Statements that can be read back from their texts, one behind the other: none but the last is an
expression. -/
def Statement.RenderableAll : List Statement → Prop
  | [] => True
  | s :: ss => s.Renderable ∧ (s.endsItself = true ∨ ss = []) ∧ Statement.RenderableAll ss

/-- A block that can be read back from its text. -/
def Block.Renderable : Block → Prop
  | .mk statements _ => Statement.RenderableAll statements

end

/-! ## Parts of texts -/

/-- A name that can be rendered is no keyword, so it is read as an identifier. -/
theorem Ident.Renderable.spells {name : Ident} (h : name.Renderable) :
    Token.Spells name.name [⟨.identifier, name.name, 0⟩] := by
  have hs := Token.spells_of_pieces (by decide) h
  rwa [show String.ofList (Piece.literal .identifier name.name.toList) = name.name from String.ofList_toList] at hs

namespace Token

theorem spells_boolean (value : Bool) :
    Spells (if value then "true" else "false") [⟨.ofBool value, if value then "true" else "false", 0⟩] := by
  cases value
  · exact spells_of_mem_spellings (by decide)
  · exact spells_of_mem_spellings (by decide)

/-- An operator between blanks. -/
theorem closes_operator (op : BinaryOp) : Closes (op.symbol ++ " ") [⟨op.kind, op.symbol, 0⟩] := by
  have hm : (op.symbol, op.kind) ∈ Kind.spellings := by cases op <;> decide
  exact (spells_of_mem_spellings hm).append closes_blank rfl rfl

/-- What begins with an equals sign is scanned as no expression. -/
theorem beginsExpression_of_equals {cs : List Char} {first : Token} {others : List Token}
    (h : ofText ('=' :: cs) = first :: others) : first.kind.beginsExpression = false := by
  have hk : (Piece.tail '=' cs).1 = .token .assign ∨ (Piece.tail '=' cs).1 = .token .equal := by
    show (Piece.symbolTail '=' cs).1 = _ ∨ (Piece.symbolTail '=' cs).1 = _
    cases cs with
    | nil => exact .inl rfl
    | cons x cs =>
      rw [Piece.symbolTail_cons, if_neg fun he => absurd he.1 (by decide)]
      by_cases hx : x = '='
      · rw [if_pos hx]
        exact .inr rfl
      · rw [if_neg hx]
        exact .inl rfl
  unfold ofText at h
  rw [pieces_cons] at h
  generalize pieces (cs.drop _) = ps at h
  unfold Piece.head at h
  obtain hk | hk := hk
  · rw [hk] at h
    cases h
    rfl
  · rw [hk] at h
    cases h
    rfl

/-- An operator in front of the text of an expression. -/
theorem spells_unary (op : UnaryOp) {text : String} {first : Token} {others : List Token}
    (h : Spells text (first :: others)) (hf : first.kind.beginsExpression = true) :
    Spells (op.symbol ++ text) (⟨op.kind, op.symbol, 0⟩ :: first :: others) := by
  intro rest hr
  have hm : (op.symbol, op.kind) ∈ Kind.spellings := by cases op <;> decide
  have hs : ∀ c ∈ (text.toList ++ rest).head?, op.kind.stopsBefore c = true := by
    intro c hc
    have ht := h rest hr
    obtain ⟨cs, hcs⟩ : ∃ cs, text.toList ++ rest = c :: cs := List.head?_eq_some_iff.mp hc
    cases op with
    | negate => rfl
    | not =>
      refine bne_iff_ne.mpr ?_
      rintro rfl
      rw [hcs] at ht
      rw [beginsExpression_of_equals ht] at hf
      cases hf
  rw [String.toList_append, List.append_assoc, ofText_of_pieces (pieces_of_mem_spellings _ hm) hs, h rest hr,
    literal_of_mem_spellings hm]
  rfl

/-- A text spells tokens without lines. -/
theorem Spells.line_eq {text : String} {tokens : List Token} (h : Spells text tokens) {token : Token}
    (hm : token ∈ tokens) : token.line = 0 := by
  have ht : token ∈ ofText (text.toList ++ []) := by
    rw [h [] nofun]
    exact List.mem_append_left _ hm
  exact line_of_mem_ofText ht

/-- The kinds of tokens that close whatever follows them. -/
def Kind.delimiters : List Kind :=
  [.comma, .semicolon, .colon, .leftParen, .rightParen, .leftBrace, .rightBrace, .leftBracket, .rightBracket]

/-- Nothing can be put behind a delimiter that would become part of it. -/
theorem closes_delimiter {kind : Kind} (h : kind ∈ Kind.delimiters) : Closes kind.name [⟨kind, kind.name, 0⟩] := by
  have hm : ∀ kind ∈ Kind.delimiters, (kind.name, kind) ∈ Kind.spellings := by decide
  have hs : ∀ c, ∀ kind ∈ Kind.delimiters, kind.stopsBefore c = true := by
    simp [Kind.delimiters, Kind.stopsBefore]
  exact closes_of_mem_spellings (hm kind h) fun c => hs c kind h

theorem closes_leftParen : Closes "(" [⟨.leftParen, "(", 0⟩] := by
  simpa only [Kind.name] using closes_delimiter (by decide : Kind.leftParen ∈ Kind.delimiters)

theorem closes_rightParen : Closes ")" [⟨.rightParen, ")", 0⟩] := by
  simpa only [Kind.name] using closes_delimiter (by decide : Kind.rightParen ∈ Kind.delimiters)

theorem closes_semicolon : Closes ";" [⟨.semicolon, ";", 0⟩] := by
  simpa only [Kind.name] using closes_delimiter (by decide : Kind.semicolon ∈ Kind.delimiters)

/-- A word of the language and a blank. -/
theorem closes_word {text : String} {kind : Kind} (h : (text, kind) ∈ Kind.spellings) :
    Closes (text ++ " ") [⟨kind, text, 0⟩] :=
  (spells_of_mem_spellings h).append closes_blank rfl rfl

end Token

open Token

/-- Behind a comma a list is the tail of a longer one. -/
theorem Ident.WrittenAll.tail {name : Ident} {names : List Ident} {tokens : List Token} (comma : Token)
    (hc : comma.kind = .comma) (h : Ident.WrittenAll (name :: names) tokens) :
    Ident.WrittenTail (name :: names) (comma :: tokens) := by
  cases h with
  | cons token hk h => exact .cons comma token hc hk h

/-- A comma before a list makes it the tail of a longer one. -/
theorem Expr.WrittenAll.tail {e : Expr} {es : List Expr} {tokens : List Token} (comma : Token)
    (hc : comma.kind = .comma) (h : Expr.WrittenAll (e :: es) tokens) :
    Expr.WrittenTail (e :: es) (comma :: tokens) := by
  cases h with
  | cons h ht => exact .cons comma hc h ht

/-- The texts of names with commas between them write them. -/
theorem Ident.exists_written : ∀ names : List Ident, (∀ name ∈ names, name.Renderable) →
    ∃ tokens, Spells (Text.commaSeparated (names.map Ident.name)) tokens ∧
      Ident.WrittenAll (names.map (Ident.relined fun _ => 0)) tokens
  | [], _ => ⟨[], closes_empty.spells, .nil⟩
  | [name], h => by
    have hs := (h name List.mem_cons_self).spells
    exact ⟨_, hs, .cons ⟨.identifier, name.name, 0⟩ rfl .nil⟩
  | name :: next :: names, h => by
    have hs := (h name List.mem_cons_self).spells
    obtain ⟨tokens, ht, hw⟩ :=
      Ident.exists_written (next :: names) fun other hm => h other (List.mem_cons_of_mem name hm)
    exact ⟨_, hs.commaSeparated ht, .cons ⟨.identifier, name.name, 0⟩ rfl (hw.tail ⟨.comma, ",", 0⟩ rfl)⟩

mutual

/-- The text of an expression writes it, at any rank. -/
theorem Expr.exists_written : ∀ e : Expr, e.Renderable →
    ∃ tokens, Spells e.render tokens ∧ ∀ rank, Expr.Written rank (e.relined fun _ => 0) tokens
  | .ident name, h => ⟨_, Ident.Renderable.spells h, fun _ => .ident ⟨.identifier, name.name, 0⟩ rfl⟩
  | .number value _, h => by
    obtain ⟨rank, rfl⟩ := h
    obtain ⟨⟨whole, fraction, hs⟩, hr⟩ := Single.read?_render rank
    exact ⟨_, spells_of_spelled hs, fun _ => .number ⟨.number, Single.render (.finite false rank), 0⟩ rfl hr rfl⟩
  | .boolean value _, _ => ⟨_, spells_boolean value, fun _ => .boolean ⟨.ofBool value, _, 0⟩ value rfl⟩
  | .string value _, h => ⟨_, (closes_quoted h).spells, fun _ => .string ⟨.string, value, 0⟩ rfl⟩
  | .array elements _, h => by
    obtain ⟨tokens, hs, hw⟩ := Expr.exists_writtenAll elements h
    have ho := closes_delimiter (by decide : Kind.leftBracket ∈ Kind.delimiters)
    have hc := closes_delimiter (by decide : Kind.rightBracket ∈ Kind.delimiters)
    exact ⟨_, ((ho.append_spells hs).append hc rfl rfl).spells,
      fun _ => .array ⟨.leftBracket, "[", 0⟩ ⟨.rightBracket, "]", 0⟩ rfl hw rfl⟩
  | .hash entries _, h => by
    obtain ⟨tokens, hs, hw⟩ := Expr.exists_writtenEntries entries h
    have ho := closes_delimiter (by decide : Kind.leftBrace ∈ Kind.delimiters)
    have hc := closes_delimiter (by decide : Kind.rightBrace ∈ Kind.delimiters)
    exact ⟨_, ((ho.append_spells hs).append hc rfl rfl).spells,
      fun _ => .hash ⟨.leftBrace, "\x7b", 0⟩ ⟨.rightBrace, "\x7d", 0⟩ rfl hw rfl⟩
  | .unary op operand _, h => by
    obtain ⟨tokens, hs, hw⟩ := Expr.exists_written operand h
    obtain ⟨first, others, rfl, hb⟩ := (hw Level.unary.rank).exists_cons
    have ht := ((closes_leftParen.append_spells (spells_unary op hs hb)).append closes_rightParen rfl rfl).spells
    rw [← String.append_assoc] at ht
    refine ⟨_, ht, fun _ => .grouped ⟨.leftParen, "(", 0⟩ ⟨.rightParen, ")", 0⟩ rfl ?_ rfl⟩
    exact .unary ⟨op.kind, op.symbol, 0⟩ op (by decide) rfl (hw _)
  | .binary op left right _, h => by
    obtain ⟨before, hl, hwl⟩ := Expr.exists_written left h.1
    obtain ⟨after, hr, hwr⟩ := Expr.exists_written right h.2
    have ht := ((closes_leftParen.append_spells hl).append closes_blank rfl rfl).append (closes_operator op)
    have ht := ((ht.append_spells hr).append closes_rightParen rfl rfl).spells
    refine ⟨⟨.leftParen, "(", 0⟩ :: ((before ++ ⟨op.kind, op.symbol, 0⟩ :: after) ++ [⟨.rightParen, ")", 0⟩]),
      ?_, fun _ => .grouped ⟨.leftParen, "(", 0⟩ ⟨.rightParen, ")", 0⟩ rfl ?_ rfl⟩
    · simpa [Expr.render, String.append_assoc] using ht
    · exact .binary ⟨op.kind, op.symbol, 0⟩ op (Nat.zero_le _) (hwl _) rfl (hwr _)
  | .function parameters body line, h => by
    obtain ⟨names, hn, hwn⟩ := Ident.exists_written parameters h.1
    obtain ⟨tokens, hs, hw⟩ := Block.exists_written body h.2
    have ho := closes_delimiter (by decide : Kind.leftBrace ∈ Kind.delimiters)
    have hc := closes_delimiter (by decide : Kind.rightBrace ∈ Kind.delimiters)
    have hfn := (spells_of_mem_spellings (by decide : ("fn", Kind.fnWord) ∈ Kind.spellings)).append
      closes_leftParen rfl rfl
    have ht := (((hfn.append_spells hn).append closes_rightParen rfl rfl).append closes_blank).append ho
    have ht := ((((ht.append closes_blank).append_spells hs).append closes_blank rfl rfl).append hc).spells
    refine ⟨⟨.fnWord, "fn", 0⟩ :: ⟨.leftParen, "(", 0⟩ :: (names ++ ⟨.rightParen, ")", 0⟩ ::
      ⟨.leftBrace, "\x7b", 0⟩ :: (tokens ++ [⟨.rightBrace, "\x7d", 0⟩])), ?_, fun _ => ?_⟩
    · simpa [Expr.render, String.append_assoc, Kind.name] using ht
    · obtain ⟨statements, line⟩ := body
      exact .function ⟨.fnWord, "fn", 0⟩ ⟨.leftParen, "(", 0⟩ ⟨.rightParen, ")", 0⟩ rfl rfl hwn rfl
        (.mk ⟨.leftBrace, "\x7b", 0⟩ ⟨.rightBrace, "\x7d", 0⟩ rfl hw rfl)
  | .call callee arguments _, h => by
    obtain ⟨before, hc, hwc⟩ := Expr.exists_written callee h.1
    obtain ⟨tokens, hs, hw⟩ := Expr.exists_writtenAll arguments h.2
    have ht := (((hc.append closes_leftParen rfl rfl).append_spells hs).append closes_rightParen rfl rfl).spells
    rw [List.append_assoc, List.append_assoc] at ht
    exact ⟨_, ht, fun _ => .call ⟨.leftParen, "(", 0⟩ ⟨.rightParen, ")", 0⟩ (hwc _) rfl hw rfl⟩
  | .index collection position _, h => by
    obtain ⟨before, hc, hwc⟩ := Expr.exists_written collection h.1
    obtain ⟨tokens, hs, hw⟩ := Expr.exists_written position h.2
    have hob := closes_delimiter (by decide : Kind.leftBracket ∈ Kind.delimiters)
    have hcb := closes_delimiter (by decide : Kind.rightBracket ∈ Kind.delimiters)
    have ht := ((closes_leftParen.append_spells hc).append hob rfl rfl).append_spells hs
    have ht := ((ht.append hcb rfl rfl).append closes_rightParen).spells
    refine ⟨⟨.leftParen, "(", 0⟩ :: ((before ++ ⟨.leftBracket, "[", 0⟩ :: (tokens ++ [⟨.rightBracket, "]", 0⟩])) ++
      [⟨.rightParen, ")", 0⟩]), ?_, fun _ => .grouped ⟨.leftParen, "(", 0⟩ ⟨.rightParen, ")", 0⟩ rfl ?_ rfl⟩
    · simpa [Expr.render, String.append_assoc, Kind.name] using ht
    · exact .index ⟨.leftBracket, "[", 0⟩ ⟨.rightBracket, "]", 0⟩ (hwc _) rfl (hw _) rfl

/-- The texts of expressions with commas between them write them. -/
theorem Expr.exists_writtenAll : ∀ es : List Expr, Expr.RenderableAll es →
    ∃ tokens, Spells (Text.commaSeparated (Expr.renderAll es)) tokens ∧
      Expr.WrittenAll (Expr.relinedAll (fun _ => 0) es) tokens
  | [], _ => ⟨[], closes_empty.spells, .nil⟩
  | e :: es, h => by
    obtain ⟨tokens, hs, hw⟩ := Expr.exists_written e h.1
    obtain ⟨others, ht, hwt⟩ := Expr.exists_writtenAll es h.2
    cases es with
    | nil => exact ⟨tokens ++ [], by rwa [List.append_nil], .cons (hw 0) .nil⟩
    | cons next es => exact ⟨_, hs.commaSeparated ht, .cons (hw 0) (hwt.tail ⟨.comma, ",", 0⟩ rfl)⟩

/-- The texts of entries with commas between them write them. -/
theorem Expr.exists_writtenEntries : ∀ entries : List (Expr × Expr), Expr.RenderableEntries entries →
    ∃ tokens, Spells (Text.commaSeparated (Expr.renderEntries entries)) tokens ∧
      Expr.WrittenEntries (Expr.relinedEntries (fun _ => 0) entries) tokens
  | [], _ => ⟨[], closes_empty.spells, .nil⟩
  | (key, value) :: entries, h => by
    obtain ⟨before, hk, hwk⟩ := Expr.exists_written key h.1.1
    obtain ⟨after, hv, hwv⟩ := Expr.exists_written value h.1.2
    obtain ⟨others, ht, hwt⟩ := Expr.exists_writtenEntries entries h.2
    have hcolon := closes_delimiter (by decide : Kind.colon ∈ Kind.delimiters)
    have hs := ((hk.append hcolon rfl rfl).append closes_blank).append_spells hv
    have hs : Spells (key.render ++ ": " ++ value.render) (before ++ ⟨.colon, ":", 0⟩ :: after) := by
      simpa [String.append_assoc, Kind.name] using hs
    cases entries with
    | nil => exact ⟨_, hs, .last ⟨.colon, ":", 0⟩ (hwk 0) rfl (hwv 0)⟩
    | cons next entries =>
      obtain ⟨nextKey, nextValue⟩ := next
      have ht := hs.commaSeparated ht
      rw [List.append_assoc] at ht
      exact ⟨_, ht, .cons ⟨.colon, ":", 0⟩ ⟨.comma, ",", 0⟩ (hwk 0) rfl (hwv 0) rfl hwt⟩

/-- The text of a statement writes it, with a semicolon behind it if it ends itself. -/
theorem Statement.exists_written : ∀ s : Statement, s.Renderable →
    ∃ tokens, Statement.Written (s.relined fun _ => 0) tokens ∧
      if s.endsItself then Closes s.render (tokens ++ [⟨.semicolon, ";", 0⟩]) else Spells s.render tokens
  | .bind name value _, h => by
    obtain ⟨tokens, hs, hw⟩ := Expr.exists_written value h.2
    have hlet := closes_word (by decide : ("let", Kind.letWord) ∈ Kind.spellings)
    have hsign := closes_word (by decide : ("=", Kind.assign) ∈ Kind.spellings)
    have ht := ((hlet.append_spells h.1.spells).append closes_blank rfl rfl).append hsign
    have ht := (ht.append_spells hs).append closes_semicolon rfl rfl
    refine ⟨_, .bind ⟨.letWord, "let", 0⟩ ⟨.identifier, name.name, 0⟩ ⟨.assign, "=", 0⟩ rfl rfl rfl (hw 0), ?_⟩
    show Closes _ _
    simpa [Statement.render, String.append_assoc] using ht
  | .leave none _, _ => by
    have hs := spells_of_mem_spellings (by decide : ("return", Kind.returnWord) ∈ Kind.spellings)
    have ht := hs.append closes_semicolon rfl rfl
    refine ⟨_, .leaveBare ⟨.returnWord, "return", 0⟩ rfl, ?_⟩
    show Closes _ _
    simpa [Statement.render] using ht
  | .leave (some value) _, h => by
    obtain ⟨tokens, hs, hw⟩ := Expr.exists_written value h
    have hreturn := closes_word (by decide : ("return", Kind.returnWord) ∈ Kind.spellings)
    have ht := (hreturn.append_spells hs).append closes_semicolon rfl rfl
    refine ⟨_, .leave ⟨.returnWord, "return", 0⟩ rfl (hw 0), ?_⟩
    show Closes _ _
    simpa [Statement.render] using ht
  | .expression value _, h => by
    obtain ⟨tokens, hs, hw⟩ := Expr.exists_written value h
    obtain ⟨first, others, rfl, _⟩ := (hw 0).exists_cons
    have hl : first.line = 0 := hs.line_eq List.mem_cons_self
    have hw := Statement.Written.expression first (hw 0)
    rw [hl] at hw
    exact ⟨_, hw, hs⟩

/-- The texts of statements write them. -/
theorem Statement.exists_writtenAll : ∀ ss : List Statement, Statement.RenderableAll ss →
    ∃ tokens, Spells (Text.concatenated (Statement.renderAll ss)) tokens ∧
      Statement.WrittenAll (Statement.relinedAll (fun _ => 0) ss) tokens
  | [], _ => ⟨[], closes_empty.spells, .nil⟩
  | s :: ss, h => by
    obtain ⟨tokens, hw, hs⟩ := Statement.exists_written s h.1
    obtain ⟨others, ht, hwt⟩ := Statement.exists_writtenAll ss h.2.2
    cases he : s.endsItself with
    | true =>
      rw [he] at hs
      have ht := Closes.append_spells hs ht
      rw [List.append_assoc] at ht
      exact ⟨_, ht, .ended ⟨.semicolon, ";", 0⟩ hw rfl hwt⟩
    | false =>
      rw [he] at hs
      obtain rfl : ss = [] := h.2.1.resolve_left (by simp [he])
      refine ⟨tokens ++ [], ?_, .unended hw nofun .nil⟩
      show Spells (s.render ++ "") _
      rwa [List.append_nil, String.append_empty]

/-- The text of a block writes its statements. -/
theorem Block.exists_written : ∀ body : Block, body.Renderable →
    ∃ tokens, Spells body.render tokens ∧
      Statement.WrittenAll (Statement.relinedAll (fun _ => 0) body.statements) tokens
  | .mk statements _, h => Statement.exists_writtenAll statements h

end

/-- The text of a program that can be read back is read without an error and as the program, lines aside. -/
theorem Statement.RenderableAll.parse_unlined {program : Program} (h : Statement.RenderableAll program) :
    (Parse.ofSource (Program.render program)).errors = [] ∧
      Statement.unlinedAll (Parse.ofSource (Program.render program)).program = Statement.unlinedAll program := by
  obtain ⟨tokens, hs, hw⟩ := Statement.exists_writtenAll program h
  have ht : Token.ofText (Program.render program).toList = tokens := by
    have ht := hs [] nofun
    rwa [Token.ofText_nil, List.append_nil, List.append_nil] at ht
  exact Parse.ofSource_of_written (ht ▸ hw)

/-- **The text of a program that can be read back is read without an error and as the program**, lines aside; so
its text is the same text again. -/
theorem Statement.RenderableAll.parse_render {program : Program} (h : Statement.RenderableAll program) :
    (Parse.ofSource (Program.render program)).errors = [] ∧
      Statement.unlinedAll (Parse.ofSource (Program.render program)).program = Statement.unlinedAll program ∧
      Program.render (Parse.ofSource (Program.render program)).program = Program.render program := by
  obtain ⟨he, hp⟩ := h.parse_unlined
  refine ⟨he, hp, ?_⟩
  have hr := congrArg Program.render hp
  unfold Program.render Statement.unlinedAll at hr
  rwa [Statement.renderAll_relined, Statement.renderAll_relined] at hr

/-- `let f = fn(x) { return;(-x) };f({"a": 0.5})`. -/
theorem Statement.RenderableAll.parse_render_closure :
    let x : Ident := ⟨"x", 1⟩
    let f : Ident := ⟨"f", 1⟩
    let body : Block := .mk [.leave none 1, .expression (.unary .negate (.ident x) 1) 1] 1
    let half : Expr := .number (.finite false ⟨1056964608, by decide⟩) 2
    let program : Program := [.bind f (.function [x] body 1) 1,
      .expression (.call (.ident f) [.hash [(.string "a" 2, half)] 2] 2) 2]
    (Parse.ofSource (Program.render program)).errors = [] ∧
      Statement.unlinedAll (Parse.ofSource (Program.render program)).program = Statement.unlinedAll program ∧
      Program.render (Parse.ofSource (Program.render program)).program = Program.render program := by
  intro x f body half program
  have hx : x.Renderable := (by decide +kernel : pieces "x".toList = [⟨.token .identifier, "x".toList⟩])
  have hf : f.Renderable := (by decide +kernel : pieces "f".toList = [⟨.token .identifier, "f".toList⟩])
  have hbody : body.Renderable := ⟨trivial, .inl rfl, hx, .inr rfl, trivial⟩
  have hfunction : (Expr.function [x] body 1).Renderable :=
    ⟨fun name hm => List.mem_singleton.mp hm ▸ hx, hbody⟩
  have hentries : Expr.RenderableEntries [(.string "a" 2, half)] :=
    ⟨⟨(by decide : '"' ∉ "a".toList), ⟨_, rfl⟩⟩, trivial⟩
  have h : Statement.RenderableAll program :=
    ⟨⟨hf, hfunction⟩, .inl rfl, ⟨hf, hentries, trivial⟩, .inr rfl, trivial⟩
  exact h.parse_render

end TinyScript
