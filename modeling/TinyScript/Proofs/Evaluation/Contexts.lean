import TinyScript.Evaluation.Program

/-! # Places in a program

Evaluation goes through a program from left to right. Around the place that it has come to stands a construct,
around that another, and so on. A **frame** is one construct with a place left open for a part of it, together
with all that is evaluated before that part. What stands behind the place is not in the frame: it may be
anything of its type (`Frame.Rest`). A **context** is frames within frames.

`Context.Reaches` says that evaluation comes to the place of a context, from which store and with which: all
that is evaluated before it completes normally, and every key before it is one that a hash can have.
-/

namespace TinyScript

/-- The parts of programs that are evaluated. -/
inductive Part where
  | expression
  | statement
  | statements

namespace Part

/-- What a part is. -/
@[reducible] def Term : Part → Type
  | .expression => Expr
  | .statement => Statement
  | .statements => List Statement

/-- Evaluates a part. -/
def eval [ByteHash] : (part : Part) → Nat → Scope → part.Term → Evaluation Object
  | .expression => Expr.eval
  | .statement => Statement.run
  | .statements => fun depth scope => Statement.runAll depth scope .null

end Part

/-- One construct around a place for a part, and what is evaluated before that part. -/
inductive Frame : Part → Part → Type where
  | unary (op : UnaryOp) (line : Nat) : Frame .expression .expression
  | binaryLeft (op : BinaryOp) (line : Nat) : Frame .expression .expression
  | binaryRight (left : Expr) (op : BinaryOp) (line : Nat) : Frame .expression .expression
  | condition (line : Nat) : Frame .expression .expression
  | consequence (condition : Expr) (braceLine line : Nat) : Frame .statements .expression
  | alternative (condition : Expr) (consequence : Block) (braceLine line : Nat) : Frame .statements .expression
  | callee (line : Nat) : Frame .expression .expression
  | argument (callee : Expr) (before : List Expr) (line : Nat) : Frame .expression .expression
  | element (before : List Expr) (line : Nat) : Frame .expression .expression
  | key (before : List (Expr × Expr)) (line : Nat) : Frame .expression .expression
  | value (before : List (Expr × Expr)) (key : Expr) (line : Nat) : Frame .expression .expression
  | collection (line : Nat) : Frame .expression .expression
  | position (collection : Expr) (line : Nat) : Frame .expression .expression
  | bind (name : Ident) (line : Nat) : Frame .expression .statement
  | leave (line : Nat) : Frame .expression .statement
  | standing (line : Nat) : Frame .expression .statement
  | block (line : Nat) : Frame .statements .statement
  | among (before : List Statement) : Frame .statement .statements

/-- Frames within frames around a place for a part. -/
inductive Context (part : Part) : Part → Type where
  | hole : Context part part
  | within {middle whole : Part} (frame : Frame middle whole) (inner : Context part middle) : Context part whole

namespace Frame

variable {part whole : Part}

/-- What can stand behind the place of a frame. -/
@[reducible] def Rest : Frame part whole → Type
  | .binaryLeft .. => Expr
  | .condition _ => Block × Option Block
  | .consequence .. => Option Block
  | .callee _ => List Expr
  | .argument .. => List Expr
  | .element .. => List Expr
  | .key .. => Expr × List (Expr × Expr)
  | .value .. => List (Expr × Expr)
  | .collection _ => Expr
  | .among _ => List Statement
  | _ => Unit

/-- The construct with a part at its place, and the rest behind it. -/
def fill : (frame : Frame part whole) → frame.Rest → part.Term → whole.Term
  | .unary op line, _, operand => Expr.unary op operand line
  | .binaryLeft op line, right, left => Expr.binary op left right line
  | .binaryRight left op line, _, right => Expr.binary op left right line
  | .condition line, (body, other), test => Expr.conditional test body other line
  | .consequence test braceLine line, other, ss => Expr.conditional test (.mk ss braceLine) other line
  | .alternative test body braceLine line, _, ss => Expr.conditional test body (some (.mk ss braceLine)) line
  | .callee line, arguments, e => Expr.call e arguments line
  | .argument function before line, after, e => Expr.call function (before ++ e :: after) line
  | .element before line, after, e => Expr.array (before ++ e :: after) line
  | .key before line, (e, after), name => Expr.hash (before ++ (name, e) :: after) line
  | .value before name line, after, e => Expr.hash (before ++ (name, e) :: after) line
  | .collection line, index, e => Expr.index e index line
  | .position e line, _, index => Expr.index e index line
  | .bind name line, _, e => Statement.bind name e line
  | .leave line, _, e => Statement.leave (some e) line
  | .standing line, _, e => Statement.expression e line
  | .block line, _, ss => Statement.block (.mk ss line)
  | .among before, after, s => before ++ s :: after

end Frame

/-- Within some bound an evaluation completes. -/
def Evaluation.Completes {α : Type} (evaluation : Nat → Evaluation α) (store : Store)
    (completion : Completion α) (after : Store) : Prop :=
  ∃ depth, evaluation depth store = some (completion, after)

open Evaluation (Completes)

namespace Frame

variable {part whole : Part} (scope : Scope)

/-- Evaluating the construct from a store comes to its place with a store: what is evaluated before the place
completes normally, and with that a branch is chosen, or a key is one that a hash can have. -/
def Reaches [ByteHash] : Frame part whole → Store → Store → Prop
  | .binaryRight left _ _, store, reached =>
    ∃ object, Completes (Expr.eval · scope left) store (.normal object) reached
  | .consequence test _ _, store, reached =>
    ∃ object, Completes (Expr.eval · scope test) store (.normal object) reached ∧ object.value.truthy = true
  | .alternative test _ _ _, store, reached =>
    ∃ object, Completes (Expr.eval · scope test) store (.normal object) reached ∧ object.value.truthy = false
  | .argument function before _, store, reached =>
    ∃ object objects middle, Completes (Expr.eval · scope function) store (.normal object) middle ∧
      Completes (Expr.evalAll · scope before) middle (.normal objects) reached
  | .element before _, store, reached =>
    ∃ objects, Completes (Expr.evalAll · scope before) store (.normal objects) reached
  | .key before _, store, reached =>
    ∃ held, Completes (Expr.evalEntries · scope [] before) store (.normal held) reached
  | .value before name _, store, reached =>
    ∃ held object middle, Completes (Expr.evalEntries · scope [] before) store (.normal held) middle ∧
      Completes (Expr.eval · scope name) middle (.normal object) reached ∧ object.value.key?.isSome
  | .position e _, store, reached =>
    ∃ object, Completes (Expr.eval · scope e) store (.normal object) reached
  | .among before, store, reached =>
    ∃ object, Completes (Statement.runAll · scope .null before) store (.normal object) reached
  | _, store, reached => reached = store

end Frame

namespace Context

variable {part : Part}

/-- What can stand behind the place of a context. -/
def Rest : {whole : Part} → Context part whole → Type
  | _, .hole => Unit
  | _, .within frame inner => inner.Rest × frame.Rest

/-- The constructs with a part at the place, and the rest behind it. -/
def fill : {whole : Part} → (context : Context part whole) → context.Rest → part.Term → whole.Term
  | _, .hole, _, term => term
  | _, .within frame inner, rest, term =>
    let (inside, behind) : inner.Rest × frame.Rest := rest
    frame.fill behind (inner.fill inside term)

/-- Evaluation in a scope, from a store, comes to the place of a context with another store. -/
def Reaches [ByteHash] (scope : Scope) : {whole : Part} → Context part whole → Store → Store → Prop
  | _, .hole, store, reached => reached = store
  | _, .within frame inner, store, reached =>
    ∃ middle, frame.Reaches scope store middle ∧ inner.Reaches scope middle reached

end Context

end TinyScript
