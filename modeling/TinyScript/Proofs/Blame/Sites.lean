import TinyScript.Proofs.Syntax.Writing

/-! # Where a program can be at fault

A fault is met at a node of a program: a name that stands for nothing, an operator, a call or an index whose operands
do not suit it, or the key of an entry that can be no key. These nodes are the **sites** of the program, wherever in
it they stand, in the bodies of functions too. A node has the line of the token that heads it, so **the sites of what
is written as tokens are on the lines of these tokens** (`Statement.WrittenAll.onLines`).
-/

namespace TinyScript

mutual

/-- The nodes of an expression at which a fault can be met. -/
def Expr.sites : Expr → List Expr
  | .ident name => [.ident name]
  | .number _ _ => []
  | .boolean _ _ => []
  | .string _ _ => []
  | .array elements _ => Expr.sitesAll elements
  | .hash entries _ => Expr.sitesEntries entries
  | .unary op operand line => .unary op operand line :: operand.sites
  | .binary op left right line => .binary op left right line :: (left.sites ++ right.sites)
  | .conditional condition consequence alternative _ =>
    condition.sites ++ (consequence.sites ++ Block.sites? alternative)
  | .function _ body _ => body.sites
  | .call callee arguments line => .call callee arguments line :: (callee.sites ++ Expr.sitesAll arguments)
  | .index collection position line => .index collection position line :: (collection.sites ++ position.sites)

/-- The sites of expressions. -/
def Expr.sitesAll : List Expr → List Expr
  | [] => []
  | e :: es => e.sites ++ Expr.sitesAll es

/-- The sites of the entries of a hash. Each key is one itself, whatever it is. -/
def Expr.sitesEntries : List (Expr × Expr) → List Expr
  | [] => []
  | (key, value) :: entries => key :: (key.sites ++ (value.sites ++ Expr.sitesEntries entries))

/-- The sites of a statement. -/
def Statement.sites : Statement → List Expr
  | .bind _ value _ => value.sites
  | .leave none _ => []
  | .leave (some value) _ => value.sites
  | .expression value _ => value.sites
  | .block body => body.sites

/-- The sites of statements. -/
def Statement.sitesAll : List Statement → List Expr
  | [] => []
  | s :: ss => s.sites ++ Statement.sitesAll ss

/-- The sites of a block. -/
def Block.sites : Block → List Expr
  | .mk statements _ => Statement.sitesAll statements

/-- The sites of a block, if there is one. -/
def Block.sites? : Option Block → List Expr
  | none => []
  | some body => body.sites

end

/-- Nodes that are all on certain lines. -/
def Expr.OnLines (lines : Nat → Prop) (sites : List Expr) : Prop := ∀ site ∈ sites, lines site.line

variable {lines : Nat → Prop}

namespace Expr.OnLines

@[simp] theorem nil : OnLines lines [] := List.forall_mem_nil _

@[simp] theorem cons_iff {site : Expr} {sites : List Expr} :
    OnLines lines (site :: sites) ↔ lines site.line ∧ OnLines lines sites :=
  List.forall_mem_cons

@[simp] theorem append_iff {sites others : List Expr} :
    OnLines lines (sites ++ others) ↔ OnLines lines sites ∧ OnLines lines others :=
  List.forall_mem_append

end Expr.OnLines

/-- Tokens that are all on certain lines. -/
def Token.OnLines (lines : Nat → Prop) (tokens : List Token) : Prop := ∀ token ∈ tokens, lines token.line

namespace Token.OnLines

@[simp] theorem cons_iff {token : Token} {tokens : List Token} :
    OnLines lines (token :: tokens) ↔ lines token.line ∧ OnLines lines tokens :=
  List.forall_mem_cons

@[simp] theorem append_iff {tokens others : List Token} :
    OnLines lines (tokens ++ others) ↔ OnLines lines tokens ∧ OnLines lines others :=
  List.forall_mem_append

end Token.OnLines

mutual

/-- An expression and its sites are on the lines of the tokens that it is written with. -/
theorem Expr.Written.onLines : ∀ {rank : Nat} {e : Expr} {tokens : List Token}, Expr.Written rank e tokens →
    Token.OnLines lines tokens → lines e.line ∧ Expr.OnLines lines e.sites
  | _, _, _, .ident token _, ht => by
    obtain ⟨hl, -⟩ := Token.OnLines.cons_iff.mp ht
    exact ⟨hl, Expr.OnLines.cons_iff.mpr ⟨hl, .nil⟩⟩
  | _, _, _, .number token _ _ _, ht => ⟨(Token.OnLines.cons_iff.mp ht).1, .nil⟩
  | _, _, _, .string token _, ht => ⟨(Token.OnLines.cons_iff.mp ht).1, .nil⟩
  | _, _, _, .boolean token _ _, ht => ⟨(Token.OnLines.cons_iff.mp ht).1, .nil⟩
  | _, _, _, .array opening closing _ h _, ht => by
    simp only [Token.OnLines.cons_iff, Token.OnLines.append_iff] at ht
    exact ⟨ht.1, Expr.WrittenAll.onLines h ht.2.1⟩
  | _, _, _, .hash opening closing _ h _, ht => by
    simp only [Token.OnLines.cons_iff, Token.OnLines.append_iff] at ht
    exact ⟨ht.1, Expr.WrittenEntries.onLines h ht.2.1⟩
  | _, _, _, .unary token op _ _ h, ht => by
    obtain ⟨hl, ht⟩ := Token.OnLines.cons_iff.mp ht
    exact ⟨hl, Expr.OnLines.cons_iff.mpr ⟨hl, (Expr.Written.onLines h ht).2⟩⟩
  | _, _, _, .binary token op _ hleft _ hright, ht => by
    simp only [Token.OnLines.cons_iff, Token.OnLines.append_iff] at ht
    simp only [Expr.sites, Expr.OnLines.cons_iff, Expr.OnLines.append_iff]
    obtain ⟨hbefore, hl, hafter⟩ := ht
    exact ⟨hl, hl, (Expr.Written.onLines hleft hbefore).2, (Expr.Written.onLines hright hafter).2⟩
  | _, _, _, .conditional word opening closing _ _ hc _ h, ht => by
    simp only [Token.OnLines.cons_iff, Token.OnLines.append_iff] at ht
    simp only [Expr.sites, Expr.OnLines.append_iff]
    obtain ⟨hl, -, hcondition, -, hbody⟩ := ht
    exact ⟨hl, (Expr.Written.onLines hc hcondition).2, Block.Written.onLines h hbody, .nil⟩
  | _, _, _, .conditionalElse word opening closing elseWord _ _ hc _ h _ ha, ht => by
    simp only [Token.OnLines.cons_iff, Token.OnLines.append_iff] at ht
    simp only [Expr.sites, Expr.OnLines.append_iff]
    obtain ⟨hl, -, hcondition, -, hbody, -, hother⟩ := ht
    exact ⟨hl, (Expr.Written.onLines hc hcondition).2, Block.Written.onLines h hbody,
      Block.Written.onLines ha hother⟩
  | _, _, _, .function word opening closing _ _ _ _ h, ht => by
    simp only [Token.OnLines.cons_iff, Token.OnLines.append_iff] at ht
    exact ⟨ht.1, Block.Written.onLines h ht.2.2.2.2⟩
  | _, _, _, .call opening closing hf _ h _, ht => by
    simp only [Token.OnLines.cons_iff, Token.OnLines.append_iff] at ht
    simp only [Expr.sites, Expr.OnLines.cons_iff, Expr.OnLines.append_iff]
    obtain ⟨hbefore, hl, harguments, -⟩ := ht
    exact ⟨hl, hl, (Expr.Written.onLines hf hbefore).2, Expr.WrittenAll.onLines h harguments⟩
  | _, _, _, .index opening closing hf _ h _, ht => by
    simp only [Token.OnLines.cons_iff, Token.OnLines.append_iff] at ht
    simp only [Expr.sites, Expr.OnLines.cons_iff, Expr.OnLines.append_iff]
    obtain ⟨hbefore, hl, hposition, -⟩ := ht
    exact ⟨hl, hl, (Expr.Written.onLines hf hbefore).2, (Expr.Written.onLines h hposition).2⟩
  | _, _, _, .grouped opening closing _ h _, ht => by
    simp only [Token.OnLines.cons_iff, Token.OnLines.append_iff] at ht
    exact Expr.Written.onLines h ht.2.1

theorem Expr.WrittenTail.onLines : ∀ {es : List Expr} {tokens : List Token}, Expr.WrittenTail es tokens →
    Token.OnLines lines tokens → Expr.OnLines lines (Expr.sitesAll es)
  | _, _, .nil, _ => .nil
  | _, _, .cons comma _ h hs, ht => by
    simp only [Token.OnLines.cons_iff, Token.OnLines.append_iff] at ht
    exact Expr.OnLines.append_iff.mpr ⟨(Expr.Written.onLines h ht.2.1).2, Expr.WrittenTail.onLines hs ht.2.2⟩

theorem Expr.WrittenAll.onLines : ∀ {es : List Expr} {tokens : List Token}, Expr.WrittenAll es tokens →
    Token.OnLines lines tokens → Expr.OnLines lines (Expr.sitesAll es)
  | _, _, .nil, _ => .nil
  | _, _, .cons h hs, ht => by
    obtain ⟨hfirst, hrest⟩ := Token.OnLines.append_iff.mp ht
    exact Expr.OnLines.append_iff.mpr ⟨(Expr.Written.onLines h hfirst).2, Expr.WrittenTail.onLines hs hrest⟩

theorem Expr.WrittenEntries.onLines : ∀ {entries : List (Expr × Expr)} {tokens : List Token},
    Expr.WrittenEntries entries tokens → Token.OnLines lines tokens →
      Expr.OnLines lines (Expr.sitesEntries entries)
  | _, _, .nil, _ => .nil
  | _, _, .last colon hk _ hv, ht => by
    simp only [Token.OnLines.cons_iff, Token.OnLines.append_iff] at ht
    obtain ⟨hl, hkey⟩ := Expr.Written.onLines hk ht.1
    have hvalue := (Expr.Written.onLines hv ht.2.2).2
    simp only [Expr.sitesEntries, Expr.OnLines.cons_iff, Expr.OnLines.append_iff]
    exact ⟨hl, hkey, hvalue, .nil⟩
  | _, _, .cons colon comma hk _ hv _ hs, ht => by
    simp only [Token.OnLines.cons_iff, Token.OnLines.append_iff] at ht
    obtain ⟨hl, hkey⟩ := Expr.Written.onLines hk ht.1
    have hvalue := (Expr.Written.onLines hv ht.2.2.1).2
    simp only [Expr.sitesEntries, Expr.OnLines.cons_iff, Expr.OnLines.append_iff]
    exact ⟨hl, hkey, hvalue, Expr.WrittenEntries.onLines hs ht.2.2.2.2⟩

theorem Statement.Written.onLines : ∀ {s : Statement} {tokens : List Token}, s.Written tokens →
    Token.OnLines lines tokens → Expr.OnLines lines s.sites
  | _, _, .bind word token sign _ _ _ h, ht => by
    simp only [Token.OnLines.cons_iff] at ht
    exact (Expr.Written.onLines h ht.2.2.2).2
  | _, _, .leaveBare word _, _ => .nil
  | _, _, .leave word _ h, ht => (Expr.Written.onLines h (Token.OnLines.cons_iff.mp ht).2).2
  | _, _, .expression first h, ht => (Expr.Written.onLines h ht).2

/-- **The sites of what is written as tokens are on the lines of these tokens.** -/
theorem Statement.WrittenAll.onLines : ∀ {ss : List Statement} {tokens : List Token},
    Statement.WrittenAll ss tokens → Token.OnLines lines tokens → Expr.OnLines lines (Statement.sitesAll ss)
  | _, _, .nil, _ => .nil
  | _, _, .ended semicolon h _ hs, ht => by
    simp only [Token.OnLines.cons_iff, Token.OnLines.append_iff] at ht
    exact Expr.OnLines.append_iff.mpr ⟨Statement.Written.onLines h ht.1, Statement.WrittenAll.onLines hs ht.2.2⟩
  | _, _, .unended h _ hs, ht => by
    obtain ⟨hfirst, hrest⟩ := Token.OnLines.append_iff.mp ht
    exact Expr.OnLines.append_iff.mpr ⟨Statement.Written.onLines h hfirst, Statement.WrittenAll.onLines hs hrest⟩

theorem Block.Written.onLines : ∀ {body : Block} {tokens : List Token}, body.Written tokens →
    Token.OnLines lines tokens → Expr.OnLines lines body.sites
  | _, _, .mk opening closing _ h _, ht => by
    simp only [Token.OnLines.cons_iff, Token.OnLines.append_iff] at ht
    exact Statement.WrittenAll.onLines h ht.2.1

end

end TinyScript
