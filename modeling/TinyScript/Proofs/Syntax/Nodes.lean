import TinyScript.Syntax.Tree

/-! # The nodes of syntax trees

The **nodes** of a tree are the expressions and the statements in it, at every depth: those in the bodies of functions
and in the branches of conditionals too. What a node stands in has all the nodes of that node
(`Statement.closed_nodesAll`).
-/

namespace TinyScript

/-- A place in a syntax tree, with what stands there. -/
inductive Node where
  | expression (e : Expr)
  | statement (s : Statement)

mutual

/-- The nodes of an expression, itself included. -/
def Expr.nodes : Expr → List Node
  | .ident name => [.expression (.ident name)]
  | .number value line => [.expression (.number value line)]
  | .boolean value line => [.expression (.boolean value line)]
  | .string text line => [.expression (.string text line)]
  | .array elements line => .expression (.array elements line) :: Expr.nodesAll elements
  | .hash entries line => .expression (.hash entries line) :: Expr.nodesEntries entries
  | .unary op operand line => .expression (.unary op operand line) :: operand.nodes
  | .binary op left right line => .expression (.binary op left right line) :: (left.nodes ++ right.nodes)
  | .conditional condition consequence alternative line =>
    .expression (.conditional condition consequence alternative line) ::
      (condition.nodes ++ (consequence.nodes ++ Block.nodes? alternative))
  | .function parameters body line => .expression (.function parameters body line) :: body.nodes
  | .call callee arguments line =>
    .expression (.call callee arguments line) :: (callee.nodes ++ Expr.nodesAll arguments)
  | .index collection position line =>
    .expression (.index collection position line) :: (collection.nodes ++ position.nodes)

/-- The nodes of expressions. -/
def Expr.nodesAll : List Expr → List Node
  | [] => []
  | e :: es => e.nodes ++ Expr.nodesAll es

/-- The nodes of the entries of a hash. -/
def Expr.nodesEntries : List (Expr × Expr) → List Node
  | [] => []
  | (key, value) :: entries => key.nodes ++ (value.nodes ++ Expr.nodesEntries entries)

/-- The nodes of a statement, itself included. -/
def Statement.nodes : Statement → List Node
  | .bind name value line => .statement (.bind name value line) :: value.nodes
  | .leave none line => [.statement (.leave none line)]
  | .leave (some value) line => .statement (.leave (some value) line) :: value.nodes
  | .expression value line => .statement (.expression value line) :: value.nodes
  | .block body => .statement (.block body) :: body.nodes

/-- The nodes of statements. -/
def Statement.nodesAll : List Statement → List Node
  | [] => []
  | s :: ss => s.nodes ++ Statement.nodesAll ss

/-- The nodes of a block. -/
def Block.nodes : Block → List Node
  | .mk statements _ => Statement.nodesAll statements

/-- The nodes of a block, if there is one. -/
def Block.nodes? : Option Block → List Node
  | none => []
  | some body => body.nodes

end

/-- The nodes at a node and below it. -/
def Node.nodes : Node → List Node
  | .expression e => e.nodes
  | .statement s => s.nodes

/-- Nodes in which the nodes of every one of them are found. -/
def Node.Closed (nodes : List Node) : Prop := ∀ node ∈ nodes, node.nodes ⊆ nodes

namespace Node.Closed

variable {node : Node} {nodes others : List Node}

theorem nil : Closed [] := List.forall_mem_nil _

theorem append (h : Closed nodes) (ho : Closed others) : Closed (nodes ++ others) := by
  intro node hm
  obtain hm | hm := List.mem_append.mp hm
  · exact List.Subset.trans (h node hm) (List.subset_append_left nodes others)
  · exact List.Subset.trans (ho node hm) (List.subset_append_right nodes others)

/-- A node stands in front of those below it. -/
theorem cons (he : node.nodes = node :: nodes) (h : Closed nodes) : Closed (node :: nodes) := by
  intro other hm
  obtain rfl | hm := List.mem_cons.mp hm
  · rw [he]
    exact List.Subset.refl _
  · exact List.Subset.trans (h other hm) (List.subset_cons_self node nodes)

end Node.Closed

mutual

theorem Expr.closed_nodes : ∀ e : Expr, Node.Closed e.nodes
  | .ident _ | .number _ _ | .boolean _ _ | .string _ _ => .cons rfl .nil
  | .array elements _ => .cons rfl (Expr.closed_nodesAll elements)
  | .hash entries _ => .cons rfl (Expr.closed_nodesEntries entries)
  | .unary _ operand _ => .cons rfl operand.closed_nodes
  | .binary _ left right _ => .cons rfl (left.closed_nodes.append right.closed_nodes)
  | .conditional condition consequence alternative _ =>
    .cons rfl (condition.closed_nodes.append (consequence.closed_nodes.append (Block.closed_nodes? alternative)))
  | .function _ body _ => .cons rfl body.closed_nodes
  | .call callee arguments _ => .cons rfl (callee.closed_nodes.append (Expr.closed_nodesAll arguments))
  | .index collection position _ => .cons rfl (collection.closed_nodes.append position.closed_nodes)

theorem Expr.closed_nodesAll : ∀ es : List Expr, Node.Closed (Expr.nodesAll es)
  | [] => .nil
  | e :: es => e.closed_nodes.append (Expr.closed_nodesAll es)

theorem Expr.closed_nodesEntries : ∀ entries : List (Expr × Expr), Node.Closed (Expr.nodesEntries entries)
  | [] => .nil
  | (key, value) :: entries =>
    key.closed_nodes.append (value.closed_nodes.append (Expr.closed_nodesEntries entries))

theorem Statement.closed_nodes : ∀ s : Statement, Node.Closed s.nodes
  | .bind _ value _ => .cons rfl value.closed_nodes
  | .leave none _ => .cons rfl .nil
  | .leave (some value) _ => .cons rfl value.closed_nodes
  | .expression value _ => .cons rfl value.closed_nodes
  | .block body => .cons rfl body.closed_nodes

/-- **Below a node of statements stand nodes of the statements.** -/
theorem Statement.closed_nodesAll : ∀ ss : List Statement, Node.Closed (Statement.nodesAll ss)
  | [] => .nil
  | s :: ss => s.closed_nodes.append (Statement.closed_nodesAll ss)

theorem Block.closed_nodes : ∀ body : Block, Node.Closed body.nodes
  | .mk statements _ => Statement.closed_nodesAll statements

theorem Block.closed_nodes? : ∀ body? : Option Block, Node.Closed (Block.nodes? body?)
  | none => .nil
  | some body => body.closed_nodes

end

end TinyScript
