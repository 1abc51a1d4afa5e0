import TinyScript.Proofs.Number.Reading
import TinyScript.Proofs.Syntax.Nodes
import TinyScript.Proofs.Syntax.Reads
import TinyScript.Proofs.Token.Printing
import TinyScript.Proofs.Token.Spelling
import TinyScript.Syntax.Bound

/-! # What programs are built of

A rule makes the leaves of a tree from the literals of tokens, and all other nodes from nodes that other rules have
made. So whatever the literals of a feed have in common, the names, numbers and strings of the program have that is read
from it, at every depth and with errors or without (`Feed.nodes_of_parse`). `Rule.Yields` says so of one rule.

The literals of a source text are those that the rules of the scanner allow; those of a list of tokens may be anything,
but a number is only read where it is finite. **No program that is read has a nested block in it**
(`Parse.nodes_of_vocabulary`).
-/

namespace TinyScript

/-- Which names, numbers and strings there can be in a tree. -/
structure Vocabulary where
  names : String → Prop
  numbers : Single → Prop
  strings : String → Prop

namespace Vocabulary

/-- What the scanner makes: names that match the pattern and are no words of the language, finite numbers without a
sign, strings without a quote. -/
def scanned : Vocabulary where
  names name := Pattern.identifier.Matches name.toList ∧ ∀ kind, (name, kind) ∉ Token.Kind.keywords
  numbers value := ∃ rank, value = .finite false rank
  strings text := '"' ∉ text.toList

/-- What tokens of any literals give: only numbers are looked at. -/
def given : Vocabulary where
  names _ := True
  numbers value := value.isFinite = true
  strings _ := True

end Vocabulary

/-- A node that is no nested block, with names, numbers and strings of a vocabulary. -/
def Node.Of (v : Vocabulary) : Node → Prop
  | .expression (.ident name) => v.names name.name
  | .expression (.number value _) => v.numbers value
  | .expression (.string text _) => v.strings text
  | .expression (.function parameters _ _) => ∀ name ∈ parameters, v.names name.name
  | .statement (.bind name _ _) => v.names name.name
  | .statement (.block _) => False
  | _ => True

/-- Nodes of a vocabulary. -/
def Vocabulary.Has (v : Vocabulary) (nodes : List Node) : Prop := ∀ node ∈ nodes, node.Of v

/-- A token whose literal is of a vocabulary. A number counts where it is read as a finite one. -/
structure Token.Provides (v : Vocabulary) (token : Token) : Prop where
  name : token.kind = .identifier → v.names token.literal
  number : token.kind = .number → ∀ value, Single.read? token.literal = some value → value.isFinite = true →
    v.numbers value
  string : token.kind = .string → v.strings token.literal

/-- A feed whose tokens have literals of a vocabulary. -/
def Feed.Provides (v : Vocabulary) (feed : Feed) : Prop := ∀ token ∈ feed.tokens, token.Provides v

variable {v : Vocabulary}

namespace Vocabulary.Has

variable {node : Node} {nodes others : List Node}

theorem nil : v.Has [] := List.forall_mem_nil _

theorem cons (h : node.Of v) (hs : v.Has nodes) : v.Has (node :: nodes) := List.forall_mem_cons.mpr ⟨h, hs⟩

theorem append (h : v.Has nodes) (ho : v.Has others) : v.Has (nodes ++ others) :=
  List.forall_mem_append.mpr ⟨h, ho⟩

end Vocabulary.Has

namespace Feed.Provides

variable {feed : Feed}

/-- The end of the input has no literal to speak of. -/
theorem head (h : feed.Provides v) : feed.head.Provides v := by
  obtain ⟨tokens, lastLine⟩ := feed
  cases tokens with
  | nil => exact ⟨nofun, nofun, nofun⟩
  | cons token tokens => exact h token List.mem_cons_self

theorem rest (h : feed.Provides v) : feed.rest.Provides v :=
  fun token hm => h token (List.mem_of_mem_tail hm)

end Feed.Provides

/-! ## Rules -/

/-- On a feed of a vocabulary, a rule gives what is promised, and it leaves such a feed. -/
def Rule.Yields {α : Type} (v : Vocabulary) (rule : Rule α) (promise : α → Prop) : Prop :=
  ∀ cursor, cursor.feed.Provides v →
    match rule cursor with
    | .done value after => promise value ∧ after.feed.Provides v
    | .failed after => after.feed.Provides v
    | .starved => True

namespace Rule

variable {α β : Type} {promise : α → Prop} {result : β → Prop}

theorem yields_pure {value : α} (h : promise value) : (pure value : Rule α).Yields v promise :=
  fun _ hf => ⟨h, hf⟩

theorem yields_fail (error : SyntaxError) : (fail error : Rule α).Yields v promise :=
  fun _ hf => hf

theorem yields_starve : (starve : Rule α).Yields v promise :=
  fun _ _ => trivial

theorem Yields.bind {rule : Rule α} {next : α → Rule β} (h : rule.Yields v promise)
    (hn : ∀ value, promise value → (next value).Yields v result) : (rule >>= next).Yields v result := by
  intro cursor hf
  have hr := h cursor hf
  show match Rule.bind rule next cursor with
    | .done value after => _ | .failed after => _ | .starved => _
  unfold Rule.bind
  generalize rule cursor = outcome at hr ⊢
  cases outcome with
  | done value after => exact hn value hr.1 after hr.2
  | failed after => exact hr
  | starved => trivial

theorem Yields.discard {rule : Rule α} (h : rule.Yields v promise) :
    (Functor.discard rule).Yields v fun _ => True :=
  h.bind fun _ _ => yields_pure trivial

theorem yields_peek : peek.Yields v (Token.Provides v) :=
  fun _ hf => ⟨hf.head, hf⟩

theorem yields_take : take.Yields v (Token.Provides v) :=
  fun _ hf => ⟨hf.head, hf.rest⟩

theorem yields_expect (kind : Token.Kind) :
    (expect kind).Yields v fun token => token.kind = kind ∧ token.Provides v := by
  intro cursor hf
  by_cases hk : cursor.feed.head.kind = kind
  · rw [expect_eq_take hk]
    exact ⟨⟨hk, hf.head⟩, hf.rest⟩
  · obtain ⟨error, he⟩ := expect_eq_failed hk
    rw [he]
    exact hf

theorem yields_skipSemicolon : skipSemicolon.Yields v fun _ => True := by
  refine yields_peek.bind fun token _ => ?_
  split
  · exact yields_take.discard
  · exact yields_pure trivial

/-- What is attempted gives what is promised, or nothing. -/
theorem Yields.attempt {rule : Rule α} (h : rule.Yields v promise) :
    rule.attempt.Yields v fun value? => ∀ value ∈ value?, promise value := by
  intro cursor hf
  have hr := h cursor hf
  unfold Rule.attempt
  generalize rule cursor = outcome at hr ⊢
  cases outcome with
  | done value after => exact ⟨fun _ hv => Option.some.inj hv ▸ hr.1, hr.2⟩
  | failed after => exact ⟨nofun, hr⟩
  | starved => trivial

end Rule

namespace Grammar

open Rule

/-- A number is one of the vocabulary, or is refused. -/
theorem yields_numeral {token : Token} (ht : token.Provides v) (hk : token.kind = .number) :
    (numeral token).Yields v fun e => v.Has e.nodes := by
  unfold numeral
  split
  · next value hr =>
    split
    · next hf => exact yields_pure (.cons (ht.number hk value hr hf) .nil)
    · exact yields_fail _
  · exact yields_fail _

theorem yields_parameterTail : ∀ depth : Nat,
    (parameterTail depth).Yields v fun names => ∀ name ∈ names, v.names name.name
  | 0 => yields_starve
  | depth + 1 => by
    refine yields_peek.bind fun next _ => ?_
    split
    · refine yields_take.bind fun _ _ => (yields_expect .identifier).bind fun token ht => ?_
      refine (yields_parameterTail depth).bind fun names hn => yields_pure ?_
      exact List.forall_mem_cons.mpr ⟨ht.2.name ht.1, hn⟩
    · exact (yields_expect .rightParen).bind fun _ _ => yields_pure nofun

theorem yields_parameters (depth : Nat) :
    (parameters depth).Yields v fun names => ∀ name ∈ names, v.names name.name := by
  refine (yields_expect .leftParen).bind fun _ _ => yields_peek.bind fun next _ => ?_
  split
  · exact yields_take.bind fun _ _ => yields_pure nofun
  · refine (yields_expect .identifier).bind fun token ht => ?_
    refine (yields_parameterTail depth).bind fun names hn => yields_pure ?_
    exact List.forall_mem_cons.mpr ⟨ht.2.name ht.1, hn⟩

theorem yields_entrySeparator : entrySeparator.Yields v fun _ => True := by
  refine yields_peek.bind fun next _ => ?_
  split
  · exact yields_pure trivial
  · exact (yields_expect .comma).discard

/-- Within a bound every rule composes its result of nodes of the vocabulary. -/
structure Composes (v : Vocabulary) (depth : Nat) : Prop where
  expression : ∀ level, (expression depth level).Yields v fun e => v.Has e.nodes
  operand : (operand depth).Yields v fun e => v.Has e.nodes
  climb : ∀ level left, v.Has left.nodes → (climb depth level left).Yields v fun e => v.Has e.nodes
  continued : ∀ left line continuation, v.Has left.nodes →
    (continued depth left line continuation).Yields v fun e => v.Has e.nodes
  list : ∀ closing, (list depth closing).Yields v fun es => v.Has (Expr.nodesAll es)
  listTail : ∀ closing, (listTail depth closing).Yields v fun es => v.Has (Expr.nodesAll es)
  entries : (entries depth).Yields v fun entries => v.Has (Expr.nodesEntries entries)
  alternative : (alternative depth).Yields v fun body? => v.Has (Block.nodes? body?)
  block : (block depth).Yields v fun body => v.Has body.nodes
  statements : (statements depth).Yields v fun ss => v.Has (Statement.nodesAll ss)
  statement : (statement depth).Yields v fun s => v.Has s.nodes

namespace Composes

variable {depth : Nat}

theorem operand_succ (c : Composes v depth) :
    (Grammar.operand (depth + 1)).Yields v fun e => v.Has e.nodes := by
  simp only [Grammar.operand]
  refine yields_take.bind fun token ht => ?_
  obtain ⟨kind, literal, line⟩ := token
  cases kind with
  | identifier => exact yields_pure (.cons (ht.name rfl) .nil)
  | number => exact yields_numeral ht rfl
  | string => exact yields_pure (.cons (ht.string rfl) .nil)
  | trueWord => exact yields_pure (.cons trivial .nil)
  | falseWord => exact yields_pure (.cons trivial .nil)
  | bang => exact (c.expression .unary).bind fun _ hr => yields_pure (.cons trivial hr)
  | minus => exact (c.expression .unary).bind fun _ hr => yields_pure (.cons trivial hr)
  | leftParen =>
    exact (c.expression .lowest).bind fun _ hi => (yields_expect .rightParen).bind fun _ _ => yields_pure hi
  | ifWord =>
    refine (yields_expect .leftParen).bind fun _ _ => (c.expression .lowest).bind fun _ hc => ?_
    refine (yields_expect .rightParen).bind fun _ _ => c.block.bind fun _ hb => ?_
    exact c.alternative.bind fun _ ha => yields_pure (.cons trivial (hc.append (hb.append ha)))
  | fnWord =>
    refine (yields_parameters depth).bind fun _ hp => c.block.bind fun _ hb => ?_
    exact yields_pure (.cons hp hb)
  | leftBracket => exact (c.list .rightBracket).bind fun _ he => yields_pure (.cons trivial he)
  | leftBrace => exact c.entries.bind fun _ he => yields_pure (.cons trivial he)
  | _ => exact yields_fail _

theorem climb_succ (c : Composes v depth) (level : Level) {left : Expr} (hl : v.Has left.nodes) :
    (Grammar.climb (depth + 1) level left).Yields v fun e => v.Has e.nodes := by
  simp only [Grammar.climb]
  refine yields_peek.bind fun token _ => ?_
  split
  · exact yields_pure hl
  · split
    · refine yields_take.bind fun _ _ => (c.continued left _ _ hl).bind fun grown hg => ?_
      exact c.climb level grown hg
    · exact yields_pure hl

theorem continued_succ (c : Composes v depth) {left : Expr} (hl : v.Has left.nodes) (line : Nat)
    (continuation : Continuation) :
    (Grammar.continued (depth + 1) left line continuation).Yields v fun e => v.Has e.nodes := by
  cases continuation with
  | operator op => exact (c.expression op.level).bind fun _ hr => yields_pure (.cons trivial (hl.append hr))
  | call => exact (c.list .rightParen).bind fun _ ha => yields_pure (.cons trivial (hl.append ha))
  | index =>
    refine (c.expression .lowest).bind fun _ hp => (yields_expect .rightBracket).bind fun _ _ => ?_
    exact yields_pure (.cons trivial (hl.append hp))

theorem list_succ (c : Composes v depth) (closing : Token.Kind) :
    (Grammar.list (depth + 1) closing).Yields v fun es => v.Has (Expr.nodesAll es) := by
  refine yields_peek.bind fun next _ => ?_
  split
  · exact yields_take.bind fun _ _ => yields_pure .nil
  · exact (c.expression .lowest).bind fun _ he => (c.listTail closing).bind fun _ hs => yields_pure (he.append hs)

theorem listTail_succ (c : Composes v depth) (closing : Token.Kind) :
    (Grammar.listTail (depth + 1) closing).Yields v fun es => v.Has (Expr.nodesAll es) := by
  refine yields_peek.bind fun next _ => ?_
  split
  · refine yields_take.bind fun _ _ => (c.expression .lowest).bind fun _ he => ?_
    exact (c.listTail closing).bind fun _ hs => yields_pure (he.append hs)
  · exact (yields_expect closing).bind fun _ _ => yields_pure .nil

theorem entries_succ (c : Composes v depth) :
    (Grammar.entries (depth + 1)).Yields v fun entries => v.Has (Expr.nodesEntries entries) := by
  refine yields_peek.bind fun next _ => ?_
  split
  · exact yields_take.bind fun _ _ => yields_pure .nil
  · refine (c.expression .lowest).bind fun _ hk => (yields_expect .colon).bind fun _ _ => ?_
    refine (c.expression .lowest).bind fun _ hv => yields_entrySeparator.bind fun _ _ => ?_
    exact c.entries.bind fun _ hs => yields_pure (hk.append (hv.append hs))

theorem alternative_succ (c : Composes v depth) :
    (Grammar.alternative (depth + 1)).Yields v fun body? => v.Has (Block.nodes? body?) := by
  refine yields_peek.bind fun next _ => ?_
  split
  · exact yields_take.bind fun _ _ => c.block.bind fun _ hb => yields_pure hb
  · exact yields_pure .nil

theorem block_succ (c : Composes v depth) :
    (Grammar.block (depth + 1)).Yields v fun body => v.Has body.nodes :=
  (yields_expect .leftBrace).bind fun _ _ => c.statements.bind fun _ hs => yields_pure hs

/-- An attempt that fails leaves no nodes. -/
theorem has_toList_append {s? : Option Statement} {ss : List Statement} (h : ∀ s ∈ s?, v.Has s.nodes)
    (hs : v.Has (Statement.nodesAll ss)) : v.Has (Statement.nodesAll (s?.toList ++ ss)) := by
  cases s? with
  | none => exact hs
  | some s => exact (h s rfl).append hs

theorem statements_succ (c : Composes v depth) :
    (Grammar.statements (depth + 1)).Yields v fun ss => v.Has (Statement.nodesAll ss) := by
  refine yields_peek.bind fun next _ => ?_
  split
  · exact yields_take.bind fun _ _ => yields_pure .nil
  split
  · exact yields_take.bind fun _ _ => yields_fail _
  · refine c.statement.attempt.bind fun first hf => c.statements.bind fun others ho => ?_
    exact yields_pure (has_toList_append hf ho)

theorem statement_succ (c : Composes v depth) :
    (Grammar.statement (depth + 1)).Yields v fun s => v.Has s.nodes := by
  simp only [Grammar.statement]
  refine yields_peek.bind fun first _ => ?_
  split
  · refine yields_take.bind fun _ _ => (yields_expect .identifier).bind fun name hn => ?_
    refine (yields_expect .assign).bind fun _ _ => (c.expression .lowest).bind fun _ he => ?_
    exact yields_skipSemicolon.bind fun _ _ => yields_pure (.cons (hn.2.name hn.1) he)
  · refine yields_take.bind fun _ _ => yields_peek.bind fun next _ => ?_
    split
    · exact yields_skipSemicolon.bind fun _ _ => yields_pure (.cons trivial .nil)
    · refine (c.expression .lowest).bind fun _ he => ?_
      exact yields_skipSemicolon.bind fun _ _ => yields_pure (.cons trivial he)
  · refine (c.expression .lowest).bind fun _ he => ?_
    exact yields_skipSemicolon.bind fun _ _ => yields_pure (.cons trivial he)

end Composes

/-- Every rule composes its result of nodes of the vocabulary, within any bound. -/
theorem composes (v : Vocabulary) (depth : Nat) : Composes v depth := by
  induction depth with
  | zero => constructor <;> intros <;> exact yields_starve
  | succ depth c =>
    exact {
      expression := fun level => c.operand.bind fun left hl => c.climb level left hl
      operand := c.operand_succ
      climb := fun level _ hl => c.climb_succ level hl
      continued := fun _ line continuation hl => c.continued_succ hl line continuation
      list := c.list_succ
      listTail := c.listTail_succ
      entries := c.entries_succ
      alternative := c.alternative_succ
      block := c.block_succ
      statements := c.statements_succ
      statement := c.statement_succ }

theorem yields_program : ∀ depth : Nat,
    (program depth).Yields v fun program => v.Has (Statement.nodesAll program)
  | 0 => yields_starve
  | depth + 1 => by
    refine yields_peek.bind fun next _ => ?_
    split
    · exact yields_pure .nil
    · refine (composes v depth).statement.attempt.bind fun first hf => ?_
      exact (yields_program depth).bind fun others ho => yields_pure (Composes.has_toList_append hf ho)

end Grammar

/-- **What is read from a feed is of the vocabulary of its tokens.** -/
theorem Feed.nodes_of_parse {feed : Feed} (h : feed.Provides v) : v.Has (Statement.nodesAll feed.parse.program) := by
  obtain ⟨program, next, hg, hp⟩ := feed.exists_parse
  have hy := Grammar.yields_program (v := v) feed.depthBound ⟨feed, []⟩ h
  rw [hg] at hy
  rw [hp]
  exact hy.1

/-! ## Source texts -/

namespace Piece

/-- A text that a rule allows is that of a printable token, unless it is a name and a word of the language. -/
theorem Role.Shape.printable {kind : Token.Kind} {text : List Char} (h : Role.Shape (.token kind) text)
    (hn : kind = .identifier → ∀ kind, (String.ofList text, kind) ∉ exactRules) (line : Nat) :
    Token.Printable ⟨kind, String.ofList (literal kind text), line⟩ := by
  cases h with
  | @whole c cs hc hcs =>
    refine .number ?_
    rw [String.toList_ofList]
    exact Pattern.matches_number.mpr ⟨c, cs, hc, hcs, .inl rfl⟩
  | @decimal c e cs es hc hcs he hes =>
    refine .number ?_
    rw [String.toList_ofList]
    exact Pattern.matches_number.mpr ⟨c, cs, hc, hcs, .inr ⟨e, es, he, hes, rfl⟩⟩
  | @closedString cs h =>
    have hl : literal .string ('"' :: (cs ++ ['"'])) = cs := List.dropLast_concat
    refine .string ?_
    rw [hl, String.toList_ofList]
    exact h
  | openString h =>
    refine .openString ?_
    rw [String.toList_ofList]
    exact h
  | @identifier c cs hc hcs =>
    refine .identifier ?_ fun kind hk => hn rfl kind (mem_exactRules_of_keywords hk)
    rw [String.toList_ofList]
    exact (Pattern.isClass_letter.followed_many Pattern.isClass_letterOrDigit).mpr ⟨c, cs, rfl, hc, hcs⟩
  | exactly h =>
    rw [literal_eq_of_mem_spellings h]
    exact .exactly (mem_exactRules.mpr h)

end Piece

/-- Tokens of source texts are printable, but for illegal characters. -/
theorem Token.printable_of_mem_ofSource {source : String} {token : Token}
    (h : token ∈ (Feed.ofSource source).tokens) (hk : token.kind ≠ .illegal) : token.Printable := by
  obtain ⟨p, hp, line, ht⟩ := Token.exists_token?_of_mem_ofPieces h
  obtain ⟨c, rest, rfl⟩ := exists_head_of_mem_pieces hp
  unfold Piece.token? at ht
  split at ht
  · next kind hr =>
    cases ht
    have hs : (Piece.head c rest).role.Shape (Piece.head c rest).text :=
      (Piece.shape_tail c rest).resolve_left fun hi =>
        hk (Piece.Role.token.inj (hr.symm.trans (congrArg Prod.fst hi)))
    rw [hr] at hs
    exact hs.printable (fun hi => Piece.not_mem_exactRules_of_tail (hr.trans (congrArg _ hi))) line
  · cases ht

/-- What a decimal is rounded to has its sign. -/
theorem Decimal.exists_ofRank (d : Decimal) : ∃ rank, d.toSingle = .ofRank d.negative rank := by
  unfold toSingle
  split
  · exact ⟨0, rfl⟩
  split
  · exact ⟨Single.infinityRank, rfl⟩
  split
  · exact ⟨0, rfl⟩
  · exact ⟨_, rfl⟩

/-- A finite number of a rank is the one of that rank. -/
theorem Single.exists_finite_of_ofRank {negative : Bool} {rank : Nat} (h : (ofRank negative rank).isFinite = true) :
    ∃ rank', ofRank negative rank = .finite negative rank' := by
  unfold ofRank at h ⊢
  by_cases hr : rank < infinityRank
  · exact ⟨_, dif_pos hr⟩
  · rw [dif_neg hr] at h
    cases h

namespace Token

/-- The text of a number spells it. -/
theorem exists_spelled {literal : String} (h : Pattern.number.Matches literal.toList) :
    ∃ whole fraction, Decimal.Spelled literal whole fraction := by
  obtain ⟨c, cs, hc, hcs, ht | ⟨e, es, he, hes, ht⟩⟩ := Pattern.matches_number.mp h
  · refine ⟨c :: cs, [], ?_, List.cons_ne_nil c cs, List.forall_mem_cons.mpr ⟨hc, hcs⟩, nofun⟩
    exact ht.trans (List.append_nil _).symm
  · refine ⟨c :: cs, e :: es, ht, List.cons_ne_nil c cs, ?_, ?_⟩
    · exact List.forall_mem_cons.mpr ⟨hc, hcs⟩
    · exact List.forall_mem_cons.mpr ⟨he, hes⟩

/-- The literals of printable tokens are what the scanner makes. -/
theorem Printable.provides {token : Token} (h : token.Printable) : token.Provides .scanned := by
  have hx : ∀ rule ∈ Piece.exactRules,
      rule.2 ≠ Kind.identifier ∧ rule.2 ≠ Kind.number ∧ rule.2 ≠ Kind.string := by decide
  cases h with
  | identifier h hk => exact ⟨fun _ => ⟨h, hk⟩, nofun, nofun⟩
  | number h =>
    refine ⟨nofun, fun _ value hr hf => ?_, nofun⟩
    obtain ⟨whole, fraction, hs⟩ := exists_spelled h
    obtain rfl := Option.some.inj ((Single.read?_of_spelled hs).symm.trans hr)
    obtain ⟨rank, hd⟩ := Decimal.exists_ofRank ⟨false, natOfDigits (whole ++ fraction), -fraction.length⟩
    rw [hd] at hf ⊢
    exact Single.exists_finite_of_ofRank hf
  | string h => exact ⟨nofun, nofun, fun _ => h⟩
  | openString => exact ⟨nofun, nofun, nofun⟩
  | illegal => exact ⟨nofun, nofun, nofun⟩
  | exactly h =>
    obtain ⟨hi, hn, hs⟩ := hx _ h
    exact ⟨fun hk => absurd hk hi, fun hk => absurd hk hn, fun hk => absurd hk hs⟩

end Token

theorem Feed.provides_ofSource (source : String) : (Feed.ofSource source).Provides .scanned := by
  intro token h
  by_cases hk : token.kind = .illegal
  · obtain ⟨_, literal, line⟩ := token
    subst hk
    exact ⟨nofun, nofun, nofun⟩
  · exact (Token.printable_of_mem_ofSource h hk).provides

theorem Feed.provides_given (feed : Feed) : feed.Provides .given :=
  fun _ _ => ⟨fun _ => trivial, fun _ _ _ hf => hf, fun _ => trivial⟩

/-- **The nodes of what is read from a source text are of the vocabulary of the scanner; of what is read from a list
of tokens no node is a nested block, and every number is finite.** -/
theorem Parse.nodes_of_vocabulary :
    (∀ source, Vocabulary.scanned.Has (Statement.nodesAll (Parse.ofSource source).program)) ∧
      ∀ tokens, Vocabulary.given.Has (Statement.nodesAll (Feed.ofTokens tokens).parse.program) :=
  ⟨fun source => Feed.nodes_of_parse (Feed.provides_ofSource source),
    fun tokens => Feed.nodes_of_parse (Feed.provides_given (Feed.ofTokens tokens))⟩

end TinyScript
