import TinyScript.Session
import TinyScript.Text.Blank

/-! # Dialogues

A dialogue greets, answers each line of its input in one session, and takes its leave. A line that is
blank is passed over. A line with syntax errors is answered with them and changes nothing; any other line
is answered with the text of what it gives, be it an error object.

How lines are read is not said here. A dialogue is given the lines that were read, and where its input could
not be read to the end it breaks off after them, without leave.
-/

namespace TinyScript.Dialogue

/-- What a dialogue begins with. -/
def greeting : String :=
  "This is the monlox programming language!\nFeel free to type in commands\n"

/-- What a dialogue ends with. -/
def farewell : String := "Goodbye!\n"

variable [ByteHash]

/-- The answer to a line, and the session after it. -/
def answer (depth : Nat) (line : String) (session : Session) : Option (String × Session) :=
  if Text.isBlank line then some ("", session)
  else
    let parse := Parse.ofSource line
    if parse.errors.isEmpty then
      (session.evaluate depth parse.program).map fun (object, after) =>
        (object.render ++ "\n", after)
    else some (SyntaxError.report parse.errors ++ "\n", session)

/-- The answers to lines, one after another. -/
def answers (depth : Nat) : List String → Session → Option (List String)
  | [], _ => some []
  | line :: lines, session =>
    match answer depth line session with
    | some (text, after) => (answers depth lines after).map (text :: ·)
    | none => none

/-- What is read of the input of a dialogue. -/
structure Heard where
  /-- The lines, up to the first that cannot be read. -/
  lines : List String
  /-- Whether every line can be read. -/
  complete : Bool

/-- All that a dialogue says, and whether it comes to its end. -/
structure Transcript where
  text : String
  complete : Bool
  deriving DecidableEq

/-- All that a dialogue says to the lines that are read. -/
def transcript (depth : Nat) (heard : Heard) : Option Transcript :=
  (answers depth heard.lines .fresh).map fun texts =>
    let leave := if heard.complete then farewell else ""
    ⟨greeting ++ Text.concatenated texts ++ leave, heard.complete⟩

end TinyScript.Dialogue
