import TinyScript.Session
import TinyScript.Proofs.Syntax.Completeness

/-! # A fold written in the language

The language has no loops: a fold over an array is a function that calls itself, through `len`, `first` and `rest`. This
module has the text of such a definition, with the lines that it has in its file, and **the program that it is read as**
(`Fold.ofSource_source`). Running it binds `reduce` and does nothing else (`Fold.interpret_source`).
-/

namespace TinyScript.Fold

/-- The definition of `reduce`, line by line. -/
def source : String :=
  String.join [
    "// expect: 15\n",
    "let reduce = fn(arr, initial, f) \x7b\n",
    "  let iter = fn(arr, result) \x7b\n",
    "    if (len(arr) == 0) \x7b\n",
    "      result\n",
    "    \x7d else \x7b\n",
    "      iter(rest(arr), f(result, first(arr)));\n",
    "    \x7d\n",
    "  \x7d;\n",
    "\n",
    "  iter(arr, initial);\n",
    "\x7d;\n"]

/-- Whether nothing is left of the array. -/
def test : Expr :=
  .binary .equal (.call (.ident ⟨"len", 4⟩) [.ident ⟨"arr", 4⟩] 4) (.number .zero 4) 4

/-- The rest of the array. -/
def remaining : Expr := .call (.ident ⟨"rest", 7⟩) [.ident ⟨"arr", 7⟩] 7

/-- The call of the function that is folded with. -/
def applied : Expr :=
  .call (.ident ⟨"f", 7⟩) [.ident ⟨"result", 7⟩, .call (.ident ⟨"first", 7⟩) [.ident ⟨"arr", 7⟩] 7] 7

/-- The call of the inner function for the rest. -/
def again : Expr := .call (.ident ⟨"iter", 7⟩) [remaining, applied] 7

/-- The parameters of the inner function. -/
def iterParameters : List Ident := [⟨"arr", 3⟩, ⟨"result", 3⟩]

/-- The body of the inner function. -/
def iterBody : Block :=
  .mk [.expression (.conditional test (.mk [.expression (.ident ⟨"result", 5⟩) 5] 4)
    (some (.mk [.expression again 7] 6)) 4) 4] 3

/-- The body of `reduce`. -/
def body : Block :=
  .mk [.bind ⟨"iter", 3⟩ (.function iterParameters iterBody 3) 3,
    .expression (.call (.ident ⟨"iter", 11⟩) [.ident ⟨"arr", 11⟩, .ident ⟨"initial", 11⟩] 11) 11] 2

/-- The parameters of `reduce`. -/
def parameters : List Ident := [⟨"arr", 2⟩, ⟨"initial", 2⟩, ⟨"f", 2⟩]

/-- The program that the definition is. -/
def program : Program := [.bind ⟨"reduce", 2⟩ (.function parameters body 2) 2]

/-- Tokens that stand on one line. -/
def onLine (line : Nat) (tokens : List (Token.Kind × String)) : List Token :=
  tokens.map fun token => ⟨token.1, token.2, line⟩

/-- The tokens of the test. -/
def testTokens : List Token :=
  onLine 4 [(.identifier, "len"), (.leftParen, "("), (.identifier, "arr"), (.rightParen, ")"), (.equal, "=="),
    (.number, "0")]

/-- The tokens of the call for the rest. -/
def againTokens : List Token :=
  onLine 7 [(.identifier, "iter"), (.leftParen, "("), (.identifier, "rest"), (.leftParen, "("), (.identifier, "arr"),
    (.rightParen, ")"), (.comma, ","), (.identifier, "f"), (.leftParen, "("), (.identifier, "result"), (.comma, ","),
    (.identifier, "first"), (.leftParen, "("), (.identifier, "arr"), (.rightParen, ")"), (.rightParen, ")"),
    (.rightParen, ")")]

/-- The tokens of the body of the inner function. -/
def iterTokens : List Token :=
  onLine 3 [(.leftBrace, "\x7b")] ++
  onLine 4 [(.ifWord, "if"), (.leftParen, "(")] ++ testTokens ++ onLine 4 [(.rightParen, ")"), (.leftBrace, "\x7b")] ++
  onLine 5 [(.identifier, "result")] ++
  onLine 6 [(.rightBrace, "\x7d"), (.elseWord, "else"), (.leftBrace, "\x7b")] ++
  againTokens ++ onLine 7 [(.semicolon, ";")] ++
  onLine 8 [(.rightBrace, "\x7d")] ++
  onLine 9 [(.rightBrace, "\x7d")]

/-- The tokens of the definition. -/
def tokens : List Token :=
  onLine 2 [(.letWord, "let"), (.identifier, "reduce"), (.assign, "="), (.fnWord, "fn"), (.leftParen, "("),
    (.identifier, "arr"), (.comma, ","), (.identifier, "initial"), (.comma, ","), (.identifier, "f"),
    (.rightParen, ")"), (.leftBrace, "\x7b")] ++
  onLine 3 [(.letWord, "let"), (.identifier, "iter"), (.assign, "="), (.fnWord, "fn"), (.leftParen, "("),
    (.identifier, "arr"), (.comma, ","), (.identifier, "result"), (.rightParen, ")")] ++ iterTokens ++
  onLine 9 [(.semicolon, ";")] ++
  onLine 11 [(.identifier, "iter"), (.leftParen, "("), (.identifier, "arr"), (.comma, ","), (.identifier, "initial"),
    (.rightParen, ")"), (.semicolon, ";")] ++
  onLine 12 [(.rightBrace, "\x7d"), (.semicolon, ";")]

/-- The text is cut into the tokens of its lines. -/
theorem ofSource_source_feed : Feed.ofSource source = ⟨tokens, 13⟩ := by
  -- The characters of a long text are slow to list, those of its lines are not.
  unfold Feed.ofSource source
  rw [String.toList_join]
  decide +kernel

/-- A name is written as its token, at any rank. -/
theorem written_ident {rank : Nat} (name : String) (line : Nat) :
    Expr.Written rank (.ident ⟨name, line⟩) (onLine line [(.identifier, name)]) :=
  .ident ⟨.identifier, name, line⟩ rfl

/-- A call of a name is written on one line as the name and its arguments in parentheses. -/
theorem written_call {rank : Nat} (name : String) (line : Nat) {arguments : List Expr} {tokens : List Token}
    (h : Expr.WrittenAll arguments tokens) :
    Expr.Written rank (.call (.ident ⟨name, line⟩) arguments line)
      (onLine line [(.identifier, name), (.leftParen, "(")] ++ tokens ++ onLine line [(.rightParen, ")")]) :=
  .call ⟨.leftParen, "(", line⟩ ⟨.rightParen, ")", line⟩ (written_ident name line) rfl h rfl

/-- One argument is written as itself. -/
theorem writtenAll_one {e : Expr} {tokens : List Token} (h : Expr.Written 0 e tokens) :
    Expr.WrittenAll [e] tokens := by
  simpa using Expr.WrittenAll.cons h .nil

/-- Two arguments are written with a comma between them. -/
theorem writtenAll_two {e f : Expr} {before after : List Token} (line : Nat) (h : Expr.Written 0 e before)
    (hf : Expr.Written 0 f after) : Expr.WrittenAll [e, f] (before ++ onLine line [(.comma, ",")] ++ after) := by
  have ht : Expr.WrittenTail [f] (⟨.comma, ",", line⟩ :: (after ++ [])) := .cons _ rfl hf .nil
  simpa [onLine] using Expr.WrittenAll.cons h ht

/-- The last statement of a block needs no semicolon. -/
theorem writtenAll_unended {s : Statement} {tokens : List Token} (h : s.Written tokens) :
    Statement.WrittenAll [s] tokens := by
  have ha := Statement.WrittenAll.unended h (by simp) .nil
  rwa [List.append_nil] at ha

/-- The test compares the length with zero. -/
theorem test_written : Expr.Written 0 test testTokens :=
  .binary ⟨.equal, "==", 4⟩ .equal (Nat.zero_le _) (written_call "len" 4 (writtenAll_one (written_ident "arr" 4))) rfl
    (.number ⟨.number, "0", 4⟩ rfl (by decide +kernel) rfl)

/-- The recursive call has the rest of the array and what the function gave as its arguments. -/
theorem again_written : Expr.Written 0 again againTokens :=
  have hr := written_call "rest" 7 (writtenAll_one (written_ident "arr" 7))
  have hf := written_call "first" 7 (writtenAll_one (written_ident "arr" 7))
  written_call "iter" 7 (writtenAll_two 7 hr (written_call "f" 7 (writtenAll_two 7 (written_ident "result" 7) hf)))

/-- The body of the inner function is a conditional on one test. -/
theorem iterBody_written : iterBody.Written iterTokens :=
  have hc := Block.Written.mk ⟨.leftBrace, "\x7b", 4⟩ ⟨.rightBrace, "\x7d", 6⟩ rfl
    (writtenAll_unended (.expression ⟨.identifier, "result", 5⟩ (written_ident "result" 5))) rfl
  have ha := Block.Written.mk ⟨.leftBrace, "\x7b", 6⟩ ⟨.rightBrace, "\x7d", 8⟩ rfl
    (.ended ⟨.semicolon, ";", 7⟩ (.expression ⟨.identifier, "iter", 7⟩ again_written) rfl .nil) rfl
  have hi := Expr.Written.conditionalElse ⟨.ifWord, "if", 4⟩ ⟨.leftParen, "(", 4⟩ ⟨.rightParen, ")", 4⟩
    ⟨.elseWord, "else", 6⟩ rfl rfl test_written rfl hc rfl ha
  have hb := Block.Written.mk ⟨.leftBrace, "\x7b", 3⟩ ⟨.rightBrace, "\x7d", 9⟩ rfl
    (writtenAll_unended (.expression ⟨.ifWord, "if", 4⟩ hi)) rfl
  hb

/-- The tokens are a writing of the program: a conditional in the function that is bound in a function. -/
theorem program_written : Statement.WrittenAll program tokens :=
  have hi := Expr.Written.function ⟨.fnWord, "fn", 3⟩ ⟨.leftParen, "(", 3⟩ ⟨.rightParen, ")", 3⟩ rfl rfl
    (.cons ⟨.identifier, "arr", 3⟩ rfl (.cons ⟨.comma, ",", 3⟩ ⟨.identifier, "result", 3⟩ rfl rfl .nil)) rfl
    iterBody_written
  have hb := Statement.Written.bind ⟨.letWord, "let", 3⟩ ⟨.identifier, "iter", 3⟩ ⟨.assign, "=", 3⟩ rfl rfl rfl hi
  have hc := written_call "iter" 11 (writtenAll_two 11 (written_ident "arr" 11) (written_ident "initial" 11))
  have hr := Expr.Written.function ⟨.fnWord, "fn", 2⟩ ⟨.leftParen, "(", 2⟩ ⟨.rightParen, ")", 2⟩ rfl rfl
    (.cons ⟨.identifier, "arr", 2⟩ rfl (.cons ⟨.comma, ",", 2⟩ ⟨.identifier, "initial", 2⟩ rfl rfl
      (.cons ⟨.comma, ",", 2⟩ ⟨.identifier, "f", 2⟩ rfl rfl .nil))) rfl
    (.mk ⟨.leftBrace, "\x7b", 2⟩ ⟨.rightBrace, "\x7d", 12⟩ rfl
      (.ended ⟨.semicolon, ";", 9⟩ hb rfl
        (.ended ⟨.semicolon, ";", 11⟩ (.expression ⟨.identifier, "iter", 11⟩ hc) rfl .nil)) rfl)
  .ended ⟨.semicolon, ";", 12⟩
    (.bind ⟨.letWord, "let", 2⟩ ⟨.identifier, "reduce", 2⟩ ⟨.assign, "=", 2⟩ rfl rfl rfl hr) rfl .nil

/-- A writing is read as what it is a writing of, so nothing has to be evaluated here. -/
theorem parse_tokens : Feed.parse ⟨tokens, 13⟩ = ⟨program, []⟩ := by
  have hp : Feed.parse ⟨tokens ++ [], 13⟩ = ⟨program, []⟩ := Feed.parse_of_written program_written rfl
  rwa [List.append_nil] at hp

/-- **The text is read as the program.** -/
theorem ofSource_source : Parse.ofSource source = ⟨program, []⟩ := by
  unfold Parse.ofSource
  rw [ofSource_source_feed, parse_tokens]

/-- The function value that the definition makes. -/
def reduce : Object := ⟨3, .function parameters body (.root 0)⟩

/-- The session after the definition. -/
def defined : Session := ⟨⟨#[[("reduce", reduce)]], 4⟩, .root 0⟩

/-- **Running the text in a new session binds `reduce`.** -/
theorem interpret_source [ByteHash] : Session.fresh.interpret 3 source = some (.value .null, defined) := by
  unfold Session.interpret
  rw [ofSource_source]
  rfl

end TinyScript.Fold
