import TinyScript.Evaluation.Collection
import TinyScript.Evaluation.Completion

/-! # Running programs

Expressions are evaluated and statements run in a scope, from left to right, every operand before its
operator; `and` and `or` evaluate both sides. A `let` binds in the scope itself and gives null. Blocks
and branches run in the scope around them; only a call opens a scope, within the one its function was
made in, and only a call or the end of the program stops a `return`.

Every function takes a bound on the depth of calls between the functions of this module. A program
**terminates** when it completes within some bound; within every larger one it then completes alike
(`Program.run_eq_of_le`).
-/

namespace TinyScript

open Evaluation

/-- The object that a name stands for: what it is bound to, or the builtin function of that name, which
is a new object at each mention. -/
def Ident.resolve (scope : Scope) (ident : Ident) : Evaluation Object := do
  match ← lookup scope ident.name with
  | some object => return object
  | none =>
    match Builtin.ofName? ident.name with
    | some builtin => allocate (.builtin builtin)
    | none => fail (.unboundName ident.name) ident.line

variable [ByteHash]

mutual

/-- Evaluates an expression. -/
def Expr.eval : Nat → Scope → Expr → Evaluation Object
  | 0, _, _ => exhausted
  | _ + 1, scope, .ident name => name.resolve scope
  | _ + 1, _, .number value _ => allocate (.number value)
  | _ + 1, _, .boolean value _ => return .ofBool value
  | _ + 1, _, .string text _ => allocate (.string text)
  | depth + 1, scope, .array elements _ => do
    let objects ← Expr.evalAll depth scope elements
    allocate (.array objects)
  | depth + 1, scope, .hash entries _ => do
    let held ← Expr.evalEntries depth scope [] entries
    allocate (.hash held)
  | depth + 1, scope, .unary op operand line => do
    let object ← Expr.eval depth scope operand
    produce line (op.apply object)
  | depth + 1, scope, .binary op left right line => do
    let first ← Expr.eval depth scope left
    let second ← Expr.eval depth scope right
    produce line (op.apply first second)
  | depth + 1, scope, .conditional condition consequence alternative _ => do
    let object ← Expr.eval depth scope condition
    if object.value.truthy then Statement.runAll depth scope .null consequence.statements
    else
      match alternative with
      | some body => Statement.runAll depth scope .null body.statements
      | none => return .null
  | _ + 1, scope, .function parameters body _ => allocate (.function parameters body scope)
  | depth + 1, scope, .call callee arguments line => do
    let function ← Expr.eval depth scope callee
    let objects ← Expr.evalAll depth scope arguments
    Object.call depth function objects line
  | depth + 1, scope, .index collection position line => do
    let first ← Expr.eval depth scope collection
    let second ← Expr.eval depth scope position
    ofExcept line (first.index second)

/-- Evaluates expressions in order. -/
def Expr.evalAll : Nat → Scope → List Expr → Evaluation (List Object)
  | 0, _, _ => exhausted
  | _ + 1, _, [] => return []
  | depth + 1, scope, e :: es => do
    let object ← Expr.eval depth scope e
    let objects ← Expr.evalAll depth scope es
    return object :: objects

/-- Evaluates the entries of a hash in order, given those before them. A key is looked at before its value
is evaluated; a later entry of an equal key takes the place of an earlier one. -/
def Expr.evalEntries : Nat → Scope → List (Key × Object × Object) → List (Expr × Expr) →
    Evaluation (List (Key × Object × Object))
  | 0, _, _, _ => exhausted
  | _ + 1, _, held, [] => return held
  | depth + 1, scope, held, (keyExpr, valueExpr) :: entries => do
    let name ← Expr.eval depth scope keyExpr
    let key ← ofExcept keyExpr.line name.keyOrFault
    let value ← Expr.eval depth scope valueExpr
    Expr.evalEntries depth scope (Assoc.insert key (name, value) held) entries

/-- Runs a statement. -/
def Statement.run : Nat → Scope → Statement → Evaluation Object
  | 0, _, _ => exhausted
  | depth + 1, scope, .bind name value _ => do
    let object ← Expr.eval depth scope value
    assign scope name.name object
    return .null
  | _ + 1, _, .leave none _ => leave .null
  | depth + 1, scope, .leave (some value) _ => do
    let object ← Expr.eval depth scope value
    leave object
  | depth + 1, scope, .expression value _ => Expr.eval depth scope value
  | depth + 1, scope, .block body => Statement.runAll depth scope .null body.statements

/-- Runs statements in order and gives what the last one gives, or `last` if there is none. -/
def Statement.runAll : Nat → Scope → Object → List Statement → Evaluation Object
  | 0, _, _, _ => exhausted
  | _ + 1, _, last, [] => return last
  | depth + 1, scope, _, statement :: statements => do
    let object ← Statement.run depth scope statement
    Statement.runAll depth scope object statements

/-- Calls an object with arguments, on the line of the call. -/
def Object.call : Nat → Object → List Object → Nat → Evaluation Object
  | 0, _, _, _ => exhausted
  | depth + 1, callee, arguments, line =>
    match callee.value with
    | .function parameters body scope =>
      if arguments.length = parameters.length then do
        let inner ← enclose scope ((parameters.map Ident.name).zip arguments)
        catchReturn (Statement.runAll depth inner .null body.statements)
      else fail (.argumentCount parameters.length arguments.length) line
    | .builtin builtin => produce line (builtin.apply arguments)
    | other => fail (.notAFunction other.kind) line

end

/-- Runs the statements of a block in a scope. -/
def Block.run (depth : Nat) (scope : Scope) (block : Block) : Evaluation Object :=
  Statement.runAll depth scope .null block.statements

/-- Runs a program in a scope. It ends with the value of its last statement or of a `return` at the top,
or with a failure; what was bound before a failure stays bound. -/
def Program.run (depth : Nat) (scope : Scope) (program : Program) (store : Store) :
    Option (Except Failure Object × Store) :=
  match Statement.runAll depth scope .null program store with
  | some (.normal object, after) => some (.ok object, after)
  | some (.returned object, after) => some (.ok object, after)
  | some (.failed failure, after) => some (.error failure, after)
  | none => none

end TinyScript
