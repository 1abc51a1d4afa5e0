import TinyScript.Evaluation.Program
import TinyScript.Object.Render
import TinyScript.Syntax.Parse
import TinyScript.Text.Quoted

/-! # Sessions

A session is a store and the scope that texts are run in, one after another. A text with a syntax error
is not run at all. A text that fails while it runs keeps what it bound before.

Every function that runs a text takes a bound on the depth of evaluation and gives nothing where the
bound is met.
-/

namespace TinyScript

/-- How running a text ends. -/
inductive Result where
  | value (object : Object)
  | malformed (errors : List SyntaxError)
  | failed (failure : Failure)

/-- What a text was run for, in words: the text of its value, or what is wrong. -/
def Result.render : Result → String
  | .value object => object.render
  | .malformed errors => SyntaxError.report errors
  | .failed failure => failure.message

/-- A store, and a scope of it. -/
structure Session where
  store : Store
  scope : Scope

namespace Session

/-- A session in a new scope of a store, around which there is none. -/
def openIn (store : Store) : Session :=
  let (scope, after) := store.openRoot
  ⟨after, scope⟩

/-- A session in which nothing is bound. -/
def fresh : Session := openIn .empty

instance : Inhabited Session := ⟨fresh⟩

variable [ByteHash]

/-- Runs a program. -/
def run (depth : Nat) (program : Program) (session : Session) : Option (Result × Session) :=
  match Program.run depth session.scope program session.store with
  | some (.ok object, after) => some (.value object, ⟨after, session.scope⟩)
  | some (.error failure, after) => some (.failed failure, ⟨after, session.scope⟩)
  | none => none

/-- Runs a text, unless it has a syntax error. -/
def interpret (depth : Nat) (source : String) (session : Session) : Option (Result × Session) :=
  let parse := Parse.ofSource source
  if parse.errors.isEmpty then session.run depth parse.program
  else some (.malformed parse.errors, session)

/-- Runs a program and gives an object in any case: a failure is an error object. -/
def evaluate (depth : Nat) (program : Program) (session : Session) : Option (Object × Session) :=
  match Program.run depth session.scope program session.store with
  | some (.ok object, after) => some (object, ⟨after, session.scope⟩)
  | some (.error failure, after) =>
    let (object, later) := after.allocate (.error failure)
    some (object, ⟨later, session.scope⟩)
  | none => none

/-- The object a name is bound to, in the scope or in those around it. -/
def get? (session : Session) (name : String) : Option Object :=
  session.store.get? session.scope name

/-- Whether a name is bound in the scope itself. -/
def hasLocal (session : Session) (name : String) : Bool :=
  session.store.hasLocal session.scope name

/-- Binds a name in the scope itself. -/
def set (session : Session) (name : String) (object : Object) : Session :=
  ⟨session.store.set session.scope name object, session.scope⟩

/-- Goes into a new scope within the present one. -/
def enter (session : Session) : Session :=
  let (scope, after) := session.store.enclose session.scope
  ⟨after, scope⟩

/-- Goes back to the scope around the present one; at the outermost scope nothing changes. -/
def exit (session : Session) : Session :=
  ⟨session.store, session.scope.outer?.getD session.scope⟩

/-- The names bound in the scope itself, in the order of their code points. -/
def names (session : Session) : List String :=
  ((session.store.locals session.scope.id).map Prod.fst).mergeSort fun a b => decide (a ≤ b)

/-- The names bound in the scope itself and whether there is a scope around it, in words. -/
def describe (session : Session) : String :=
  "Environment \x7b names: [" ++ Text.commaSeparated (session.names.map Text.quoted) ++ "], outer: "
    ++ (if session.scope.outer?.isSome then "true" else "false") ++ " \x7d"

end Session

variable [ByteHash]

/-- Runs a text in a session of its own. -/
def Result.ofSource (depth : Nat) (source : String) : Option Result :=
  (Session.fresh.interpret depth source).map Prod.fst

end TinyScript
