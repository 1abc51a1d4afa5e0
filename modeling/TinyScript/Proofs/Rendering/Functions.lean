import TinyScript.Proofs.Layout.Evaluation
import TinyScript.Proofs.Rendering.Reparsing
import TinyScript.Proofs.Syntax.Vocabulary
import TinyScript.Text.Fx

/-! # Functions are read back from their texts

The text of a function is that of the literal that it was made from. A literal that stands in what was read from a
source text has names, numbers and strings that the scanner makes (`Feed.nodes_of_parse`), so it can be read back from
its text if it is **plain**: if there is no conditional in it, and in its body and in those of the functions in it an
expression is a statement only at the end. **Reading the text of such a function and running it in the scope of the
function gives a function that does the same** for all arguments and in every store, lines aside
(`Object.parse_render_function`).
-/

namespace TinyScript

/-- A node that is no conditional, and no function with an expression as a statement before the last one. -/
def Node.Plain : Node → Prop
  | .expression (.conditional _ _ _ _) => False
  | .expression (.function _ body _) => ∀ value line, .expression value line ∉ body.statements.dropLast
  | _ => True

/-- Nodes of what can be read back from its text. -/
def Node.Readable (nodes : List Node) : Prop := ∀ node ∈ nodes, node.Of .scanned ∧ node.Plain

namespace Node.Readable

variable {node : Node} {nodes others : List Node}

theorem head (h : Readable (node :: nodes)) : node.Of .scanned ∧ node.Plain :=
  h node List.mem_cons_self

theorem tail (h : Readable (node :: nodes)) : Readable nodes :=
  fun other hm => h other (List.mem_cons_of_mem node hm)

theorem left (h : Readable (nodes ++ others)) : Readable nodes :=
  (List.forall_mem_append.mp h).1

theorem right (h : Readable (nodes ++ others)) : Readable others :=
  (List.forall_mem_append.mp h).2

end Node.Readable

/-- A name that the scanner makes is scanned as one identifier. -/
theorem Ident.renderable_of_names {name : Ident} (h : Vocabulary.scanned.names name.name) : name.Renderable := by
  have hp := (@Token.Printable.identifier name.name 0 h.1 h.2).pieces_eq
  rwa [Token.printed_of_ne (by decide)] at hp

mutual

/-- An expression can be read back if its nodes can. -/
theorem Expr.renderable_of_nodes : ∀ e : Expr, Node.Readable e.nodes → e.Renderable
  | .ident _, h => Ident.renderable_of_names h.head.1
  | .number _ _, h => h.head.1
  | .boolean _ _, _ => trivial
  | .string _ _, h => h.head.1
  | .array elements _, h => Expr.renderableAll_of_nodes elements h.tail
  | .hash entries _, h => Expr.renderableEntries_of_nodes entries h.tail
  | .unary _ operand _, h => operand.renderable_of_nodes h.tail
  | .binary _ left right _, h => ⟨left.renderable_of_nodes h.tail.left, right.renderable_of_nodes h.tail.right⟩
  | .conditional _ _ _ _, h => h.head.2
  | .function _ (.mk statements _) _, h =>
    ⟨fun name hm => Ident.renderable_of_names (h.head.1 name hm),
      Statement.renderableAll_of_nodes statements h.head.2 h.tail⟩
  | .call callee arguments _, h =>
    ⟨callee.renderable_of_nodes h.tail.left, Expr.renderableAll_of_nodes arguments h.tail.right⟩
  | .index collection position _, h =>
    ⟨collection.renderable_of_nodes h.tail.left, position.renderable_of_nodes h.tail.right⟩

theorem Expr.renderableAll_of_nodes : ∀ es : List Expr, Node.Readable (Expr.nodesAll es) → Expr.RenderableAll es
  | [], _ => trivial
  | e :: es, h => ⟨e.renderable_of_nodes h.left, Expr.renderableAll_of_nodes es h.right⟩

theorem Expr.renderableEntries_of_nodes : ∀ entries : List (Expr × Expr), Node.Readable (Expr.nodesEntries entries) →
    Expr.RenderableEntries entries
  | [], _ => trivial
  | (key, value) :: entries, h =>
    ⟨⟨key.renderable_of_nodes h.left, value.renderable_of_nodes h.right.left⟩,
      Expr.renderableEntries_of_nodes entries h.right.right⟩

/-- A statement with readable nodes can be rendered and read again. -/
theorem Statement.renderable_of_nodes : ∀ s : Statement, Node.Readable s.nodes → s.Renderable
  | .bind _ value _, h => ⟨Ident.renderable_of_names h.head.1, value.renderable_of_nodes h.tail⟩
  | .leave none _, _ => trivial
  | .leave (some value) _, h => value.renderable_of_nodes h.tail
  | .expression value _, h => value.renderable_of_nodes h.tail
  | .block _, h => h.head.1

/-- Statements can be read back if their nodes can, and if none but the last is an expression. -/
theorem Statement.renderableAll_of_nodes : ∀ ss : List Statement,
    (∀ value line, Statement.expression value line ∉ ss.dropLast) → Node.Readable (Statement.nodesAll ss) →
    Statement.RenderableAll ss
  | [], _, _ => trivial
  | [s], _, h => ⟨s.renderable_of_nodes h.left, .inr rfl, trivial⟩
  | s :: next :: ss, hl, h => by
    have hs := s.renderable_of_nodes h.left
    refine ⟨hs, .inl ?_, Statement.renderableAll_of_nodes (next :: ss) (fun value line hm => ?_) h.right⟩
    · cases s with
      | bind => rfl
      | leave => rfl
      | expression value line => exact absurd List.mem_cons_self (hl value line)
      | block => exact hs.elim
    · exact hl value line (List.mem_cons_of_mem s hm)

end

/-- Of an expression that can be read back the text is read as a program of the expression, lines aside. -/
theorem Expr.Renderable.parse_unlined {e : Expr} (h : e.Renderable) :
    (Parse.ofSource e.render).errors = [] ∧
      ∃ again line, (Parse.ofSource e.render).program = [.expression again line] ∧
        again.relined (fun _ => 0) = e.relined fun _ => 0 := by
  have hr : Program.render [.expression e 0] = e.render := String.append_empty
  have hp : Statement.RenderableAll [.expression e 0] := ⟨h, .inr rfl, trivial⟩
  obtain ⟨he, hu⟩ := hp.parse_unlined
  rw [hr] at he hu
  refine ⟨he, ?_⟩
  generalize (Parse.ofSource e.render).program = program at hu
  obtain _ | ⟨s, _ | ⟨next, ss⟩⟩ := program
  · cases hu
  · cases s with
    | expression again line => exact ⟨again, line, rfl, (Statement.expression.inj (List.cons.inj hu).1).1⟩
    | leave value line => cases value <;> cases hu
    | _ => cases hu
  · exact nomatch (List.cons.inj hu).2

/-- What is a function literal but for lines is one. -/
theorem Expr.exists_function_of_relined {e : Expr} {parameters : List Ident} {body : Block} {line : Nat}
    (h : e.relined (fun _ => 0) = (Expr.function parameters body line).relined fun _ => 0) :
    ∃ parameters' body' line', e = .function parameters' body' line' ∧
      parameters'.map (Ident.relined fun _ => 0) = parameters.map (Ident.relined fun _ => 0) ∧
      body'.relined (fun _ => 0) = body.relined fun _ => 0 := by
  cases e with
  | function parameters' body' line' =>
    obtain ⟨hp, hb, _⟩ := Expr.function.inj h
    exact ⟨parameters', body', line', rfl, hp, hb⟩
  | _ => cases h

/-! ## What functions do -/

/-- How an evaluation ends and what it leaves, without lines. -/
def Evaluation.unlined (ended : Option (Completion Object × Store)) : Option (Completion Object × Store) :=
  ended.map fun r => (r.1.relined (fun _ => 0) (Object.relined fun _ => 0), r.2.relined fun _ => 0)

section

variable [ByteHash]

/-- An object is called for what it holds, whatever its identity. -/
theorem Object.call_congr {callee other : Object} (h : callee.value = other.value) (depth : Nat) :
    Object.call depth callee = Object.call depth other := by
  cases depth with
  | zero => rfl
  | succ depth =>
    obtain ⟨id, value⟩ := callee
    obtain ⟨id', value'⟩ := other
    obtain rfl : value = value' := h
    rfl

/-- Objects that hold the same but for lines do the same but for lines. -/
theorem Object.unlined_call {callee other : Object}
    (h : callee.value.relined (fun _ => 0) = other.value.relined fun _ => 0) (depth : Nat) (arguments : List Object)
    (line line' : Nat) (store : Store) :
    Evaluation.unlined (Object.call depth callee arguments line store) =
      Evaluation.unlined (Object.call depth other arguments line' store) := by
  have hv : (callee.relined fun _ => 0).value = (other.relined fun _ => 0).value := by
    rw [Object.value_relined, Object.value_relined, h]
  have hc := (relines (fun _ => 0) depth).call callee arguments line store
  have ho := (relines (fun _ => 0) depth).call other arguments line' store
  rw [Object.call_congr hv] at hc
  exact hc.symm.trans ho

/-- A literal makes a function of the scope. -/
theorem Expr.eq_of_eval_function {depth : Nat} {scope : Scope} {parameters : List Ident} {body : Block} {line : Nat}
    {store after : Store} {object : Object}
    (h : Expr.eval depth scope (.function parameters body line) store = some (.normal object, after)) :
    object.value = .function parameters body scope := by
  cases depth with
  | zero => cases h
  | succ depth =>
    cases h
    rfl

/-- A function with the parameters, the body and the scope of another, and one that does what the other does with any
arguments and in any store: all of it but for lines. -/
structure Object.Copies (copy object : Object) : Prop where
  value : ∃ parameters parameters' body body' scope,
    object.value = .function parameters body scope ∧ copy.value = .function parameters' body' scope ∧
      parameters'.map Ident.name = parameters.map Ident.name ∧ body'.relined (fun _ => 0) = body.relined fun _ => 0
  call : ∀ bound arguments line line' store,
    Evaluation.unlined (Object.call bound copy arguments line store) =
      Evaluation.unlined (Object.call bound object arguments line' store)

/-- A function of the same code, lines aside, in the same scope is a copy. -/
theorem Object.copies_of_relined {copy object : Object} {parameters parameters' : List Ident} {body body' : Block}
    {scope : Scope} (hc : copy.value = .function parameters' body' scope)
    (ho : object.value = .function parameters body scope)
    (hp : parameters'.map (Ident.relined fun _ => 0) = parameters.map (Ident.relined fun _ => 0))
    (hb : body'.relined (fun _ => 0) = body.relined fun _ => 0) : copy.Copies object := by
  constructor
  · refine ⟨parameters, parameters', body, body', scope, ho, hc, ?_, hb⟩
    rw [← Ident.names_relined (f := fun _ => 0), hp, Ident.names_relined]
  · intro bound arguments line line' store
    refine Object.unlined_call ?_ bound arguments line line' store
    rw [hc, ho]
    simp only [Value.relined, hp, hb]

/-- **The text of a function that was made from a plain literal of a source text is that of the literal. It is read
without an error as a program of one expression, and run in the scope of the function, in any store, this gives a copy
of the function.** -/
theorem Object.parse_render_function {source : String} {parameters : List Ident} {body : Block} {line depth : Nat}
    {scope : Scope} {store after : Store} {object : Object}
    (hl : .expression (.function parameters body line) ∈ Statement.nodesAll (Parse.ofSource source).program)
    (hp : ∀ node ∈ (Expr.function parameters body line).nodes, node.Plain)
    (he : Expr.eval depth scope (.function parameters body line) store = some (.normal object, after)) :
    object.render = (Expr.function parameters body line).render ∧
      (Parse.ofSource object.render).errors = [] ∧
      (∃ again line, (Parse.ofSource object.render).program = [.expression again line]) ∧
      ∀ before, ∃ copy opened,
        (∀ bound, Program.run (bound + 3) scope (Parse.ofSource object.render).program before =
          some (.ok copy, opened)) ∧ copy.Copies object := by
  have hv := Expr.eq_of_eval_function he
  have hr : object.render = (Expr.function parameters body line).render := by
    obtain ⟨id, value⟩ := object
    obtain rfl : value = _ := hv
    rfl
  -- all nodes of the literal are nodes of the program, so the scanner has made its names, numbers and strings
  have hn : (Expr.function parameters body line).Renderable := by
    refine Expr.renderable_of_nodes _ fun node hm => ⟨?_, hp node hm⟩
    exact Feed.nodes_of_parse (Feed.provides_ofSource source) node (Statement.closed_nodesAll _ _ hl hm)
  obtain ⟨hs, again, at_, hprogram, hrelined⟩ := hn.parse_unlined
  obtain ⟨parameters', body', line', rfl, hparameters, hbody⟩ := Expr.exists_function_of_relined hrelined
  rw [hr]
  refine ⟨rfl, hs, ⟨_, at_, hprogram⟩, fun before => ?_⟩
  refine ⟨⟨before.nextId, .function parameters' body' scope⟩, ⟨before.bindings, before.nextId + 1⟩, ?_, ?_⟩
  · intro bound
    rw [hprogram]
    rfl
  · exact Object.copies_of_relined rfl hv hparameters hbody

end

/-- `fn(x) { fn(y) { let z = (x + y);z } }`, with another layout and another function in it. -/
theorem Object.parse_render_function_inner :
    let x : Ident := ⟨"x", 1⟩
    let y : Ident := ⟨"y", 2⟩
    let inner : Block := .mk [.bind ⟨"z", 2⟩ (.binary .add (.ident ⟨"x", 2⟩) (.ident y) 2) 2,
      .expression (.ident ⟨"z", 3⟩) 3] 2
    let body : Block := .mk [.expression (.function [y] inner 2) 2] 1
    let source := "let make = fn(x) \x7b\n fn(y) \x7b let z = x + y;\n z; \x7d; \x7d;"
    let object : Object := ⟨3, .function [x] body (.root 0)⟩
    .expression (.function [x] body 1) ∈ Statement.nodesAll (Parse.ofSource source).program ∧
      (∀ node ∈ (Expr.function [x] body 1).nodes, node.Plain) ∧
      Expr.eval 1 (.root 0) (.function [x] body 1) .empty = some (.normal object, ⟨#[], 4⟩) ∧
      object.render = (Expr.function [x] body 1).render ∧
      (Parse.ofSource object.render).errors = [] ∧
      (∃ again line, (Parse.ofSource object.render).program = [.expression again line]) ∧
      ∀ before, ∃ copy opened,
        (∀ bound, Program.run (bound + 3) (.root 0) (Parse.ofSource object.render).program before =
          some (.ok copy, opened)) ∧ copy.Copies object := by
  intro x y inner body source object
  -- evaluating the parser is slow, but it reads what is written
  have hz := Statement.Written.bind ⟨.letWord, "let", 2⟩ ⟨.identifier, "z", 2⟩ ⟨.assign, "=", 2⟩ rfl rfl rfl
    (.binary ⟨.plus, "+", 2⟩ .add (Nat.zero_le _) (.ident ⟨.identifier, "x", 2⟩ rfl) rfl
      (.ident ⟨.identifier, "y", 2⟩ rfl))
  have hi : inner.Written _ := .mk ⟨.leftBrace, "\x7b", 2⟩ ⟨.rightBrace, "\x7d", 3⟩ rfl (.ended ⟨.semicolon, ";", 2⟩ hz rfl
    (.ended ⟨.semicolon, ";", 3⟩ (.expression ⟨.identifier, "z", 3⟩ (.ident ⟨.identifier, "z", 3⟩ rfl)) rfl .nil)) rfl
  have hb : body.Written _ := .mk ⟨.leftBrace, "\x7b", 1⟩ ⟨.rightBrace, "\x7d", 3⟩ rfl (.ended ⟨.semicolon, ";", 3⟩
    (.expression ⟨.fnWord, "fn", 2⟩ (.function ⟨.fnWord, "fn", 2⟩ ⟨.leftParen, "(", 2⟩ ⟨.rightParen, ")", 2⟩ rfl rfl
      (.cons ⟨.identifier, "y", 2⟩ rfl .nil) rfl hi)) rfl .nil) rfl
  have hw := Statement.WrittenAll.ended ⟨.semicolon, ";", 3⟩ (.bind ⟨.letWord, "let", 1⟩ ⟨.identifier, "make", 1⟩
    ⟨.assign, "=", 1⟩ rfl rfl rfl (.function ⟨.fnWord, "fn", 1⟩ ⟨.leftParen, "(", 1⟩ ⟨.rightParen, ")", 1⟩ rfl rfl
      (.cons ⟨.identifier, "x", 1⟩ rfl .nil) rfl hb)) rfl .nil
  have hs : Parse.ofSource source = ⟨[.bind ⟨"make", 1⟩ (.function [x] body 1) 1], []⟩ :=
    (congrArg Feed.parse (by decide +kernel)).trans
      (Feed.parse_of_written hw (show (Feed.mk [] 3).head.kind = .endOfInput from rfl))
  have hl : .expression (.function [x] body 1) ∈ Statement.nodesAll (Parse.ofSource source).program := by
    rw [hs]
    exact List.mem_cons_of_mem _ List.mem_cons_self
  have hp : ∀ node ∈ (Expr.function [x] body 1).nodes, node.Plain := by
    simp [body, inner, Expr.nodes, Statement.nodes, Statement.nodesAll, Block.nodes, Node.Plain, Block.statements]
  have he : Expr.eval 1 (.root 0) (.function [x] body 1) .empty = some (.normal object, ⟨#[], 4⟩) := rfl
  exact ⟨hl, hp, he, Object.parse_render_function hl hp he⟩

end TinyScript
