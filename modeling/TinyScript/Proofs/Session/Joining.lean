import TinyScript.Proofs.Layout.Sources

/-! # Texts that are joined

A text that ends with a semicolon ends with a whole statement, and neither its last token nor its last
statement can go on in the text behind it. So texts of this kind, joined with newlines, have the tokens of
all of them, one text after another, and **are read as their programs, one after another**
(`Parse.ofSource_joined`).
-/

namespace TinyScript

/-! ## Statements behind each other -/

/-- Tokens the last of which is no semicolon. -/
def Token.Unended (tokens : List Token) : Prop :=
  ∃ before last, tokens = before ++ [last] ∧ last.kind ≠ .semicolon

/-- A token of any kind but the semicolon ends nothing. -/
theorem Token.unended_singleton {token : Token} {kind : Token.Kind} (h : token.kind = kind)
    (hk : kind ≠ .semicolon) : Token.Unended [token] :=
  ⟨[], token, rfl, h ▸ hk⟩

theorem Token.Unended.append_left {more : List Token} (tokens : List Token) (h : Token.Unended more) :
    Token.Unended (tokens ++ more) := by
  obtain ⟨before, last, rfl, hl⟩ := h
  exact ⟨tokens ++ before, last, (List.append_assoc tokens before [last]).symm, hl⟩

theorem Token.Unended.cons {more : List Token} (token : Token) (h : Token.Unended more) :
    Token.Unended (token :: more) :=
  h.append_left [token]

/-- A block is written with a closing brace at its end. -/
theorem Block.Written.unended {body : Block} {tokens : List Token} (h : body.Written tokens) :
    Token.Unended tokens := by
  cases h with
  | mk opening closing ho h hc =>
    exact ((Token.unended_singleton hc (by decide)).append_left _).cons opening

/-- The last token of an expression is no semicolon. -/
theorem Expr.Written.unended {rank : Nat} {e : Expr} {tokens : List Token} :
    Expr.Written rank e tokens → Token.Unended tokens
  | .ident _ hk | .string _ hk | .number _ hk _ _ => Token.unended_singleton hk (by decide)
  | .boolean _ value hk => Token.unended_singleton hk (by cases value <;> decide)
  | .array opening _ _ _ hc | .hash opening _ _ _ hc | .grouped opening _ _ _ hc =>
    ((Token.unended_singleton hc (by decide)).append_left _).cons opening
  | .unary token _ _ _ h => h.unended.cons token
  | .binary token _ _ _ _ h => (h.unended.cons token).append_left _
  | .conditional word opening closing _ _ _ _ h =>
    (((h.unended.cons closing).append_left _).cons opening).cons word
  | .conditionalElse word opening closing elseWord _ _ _ _ _ _ h =>
    (((((h.unended.cons elseWord).append_left _).cons closing).append_left _).cons opening).cons word
  | .function word opening closing _ _ _ _ h =>
    (((h.unended.cons closing).append_left _).cons opening).cons word
  | .call opening _ _ _ _ hc | .index opening _ _ _ _ hc =>
    (((Token.unended_singleton hc (by decide)).append_left _).cons opening).append_left _

/-- The last token of a statement is no semicolon, as that stands behind it. -/
theorem Statement.Written.unended {s : Statement} {tokens : List Token} (h : s.Written tokens) :
    Token.Unended tokens := by
  cases h with
  | bind word token sign hw hk hs h => exact ((h.unended.cons sign).cons token).cons word
  | leaveBare word hw => exact Token.unended_singleton hw (by decide)
  | leave word hw h => exact h.unended.cons word
  | expression first h => exact h.unended

/-- Tokens that are not there or the last of which is a semicolon. -/
def Token.Ended (tokens : List Token) : Prop := ∀ last ∈ tokens.getLast?, last.kind = .semicolon

theorem Token.Ended.of_append {tokens more : List Token} (h : Token.Ended (tokens ++ more)) :
    Token.Ended more := by
  intro last hl
  refine h last ?_
  rw [List.getLast?_append, hl]
  rfl

theorem Token.Unended.not_ended {tokens : List Token} (h : Token.Unended tokens) : ¬ Token.Ended tokens := by
  obtain ⟨before, last, rfl, hl⟩ := h
  exact fun he => hl (he last List.getLast?_concat)

/-- Statements that end with a semicolon may be followed by any others. -/
theorem Statement.WrittenAll.append {ss others : List Statement} {tokens more : List Token}
    (ho : Statement.WrittenAll others more) : Statement.WrittenAll ss tokens → Token.Ended tokens →
      Statement.WrittenAll (ss ++ others) (tokens ++ more)
  | .nil, _ => ho
  | @ended semicolon s ss first rest h hs ht, he => by
    have hr : Token.Ended ([semicolon] ++ rest) := he.of_append
    rw [List.append_assoc]
    exact .ended semicolon h hs (Statement.WrittenAll.append ho ht hr.of_append)
  | @unended s ss first rest h hn ht, he => by
    rw [List.append_assoc]
    cases rest with
    | nil =>
      rw [List.append_nil] at he
      exact absurd he h.unended.not_ended
    | cons token rest => exact .unended h hn (Statement.WrittenAll.append ho ht he.of_append)

/-! ## Texts behind each other -/

/-- A text without a syntax error whose last token is a semicolon. -/
structure Parse.Complete (source : String) : Prop where
  errors_eq : (Parse.ofSource source).errors = []
  ended : ∃ last, (Feed.ofSource source).tokens.getLast? = some last ∧ last.kind = .semicolon

namespace Parse.Complete

variable {source : String}

/-- The last token is a semicolon without its line too. -/
theorem getLast?_ofText (h : Parse.Complete source) :
    ∃ last, (Token.ofText source.toList).getLast? = some last ∧ last.kind = .semicolon := by
  obtain ⟨last, hl, hk⟩ := h.ended
  refine ⟨last.unlined, ?_, hk⟩
  rw [← Token.map_unlined_ofSource, List.getLast?_map, hl]
  rfl

/-- The tokens of a complete text end with a semicolon. -/
theorem ended_ofText (h : Parse.Complete source) : Token.Ended (Token.ofText source.toList) := by
  obtain ⟨last, hl, hk⟩ := h.getLast?_ofText
  intro token hm
  rw [hl] at hm
  cases hm
  exact hk

/-- A text that ends with a semicolon holds a statement. -/
theorem unlinedAll_ne_nil (h : Parse.Complete source) :
    Statement.unlinedAll (Parse.ofSource source).program ≠ [] := by
  intro hp
  have hw := Parse.written_of_errors_eq_nil h.errors_eq
  rw [hp] at hw
  obtain ⟨last, hl, _⟩ := h.getLast?_ofText
  generalize Token.ofText source.toList = tokens at hw hl
  cases hw
  cases hl

end Parse.Complete

/-- The programs of texts, one after another and without their lines. -/
def Parse.programs (sources : List String) : Program :=
  sources.flatMap fun source => Statement.unlinedAll (Parse.ofSource source).program

/-- **Texts that end with semicolons, joined with newlines, are read as their programs**, lines aside. -/
theorem Parse.ofSource_joined {sources : List String} {last : String}
    (h : ∀ source ∈ sources, Parse.Complete source) (hl : (Parse.ofSource last).errors = []) :
    (Parse.ofSource ("\n".intercalate (sources ++ [last]))).errors = [] ∧
      Statement.unlinedAll (Parse.ofSource ("\n".intercalate (sources ++ [last]))).program =
        Parse.programs (sources ++ [last]) := by
  apply Parse.ofSource_of_written
  induction sources with
  | nil =>
    have hw := Parse.written_of_errors_eq_nil hl
    show Statement.WrittenAll (Statement.unlinedAll _ ++ []) (Token.ofText ("\n".intercalate [last]).toList)
    rwa [String.intercalate_singleton, List.append_nil]
  | cons source sources ih =>
    have hc := h source List.mem_cons_self
    have hrest := ih fun other hm => h other (List.mem_cons_of_mem source hm)
    obtain ⟨next, others, he⟩ : ∃ next others, sources ++ [last] = next :: others :=
      List.exists_cons_of_ne_nil (by simp)
    have hopen : ∀ token ∈ (Token.ofText source.toList).getLast?, token.kind ≠ .openString := by
      intro token hm ho
      rw [hc.ended_ofText token hm] at ho
      cases ho
    rw [List.cons_append, he, String.intercalate_cons_cons, ← he, String.toList_append, String.toList_append,
      List.append_assoc]
    show Statement.WrittenAll (_ ++ Parse.programs (sources ++ [last]))
      (Token.ofText (source.toList ++ '\n' :: ("\n".intercalate (sources ++ [last])).toList))
    rw [Token.ofText_append_newline _ hopen]
    exact Statement.WrittenAll.append hrest (Parse.written_of_errors_eq_nil hc.errors_eq) hc.ended_ofText

end TinyScript
