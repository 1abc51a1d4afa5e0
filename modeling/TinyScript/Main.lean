import TinyScript.CommandLine

/-! # The program

Reads the command line, the file it names and the standard input, and writes what comes of them. What
that is, is said in `TinyScript.CommandLine`; here is only the reading and writing.
-/

namespace TinyScript

open CommandLine

/-- A bound on the depth of evaluation that the machine's own stack stays far below. -/
def depthLimit : Nat := 1000000000000000000

/-- The text of a file, if it can be read. -/
def readText (name : String) : IO (Option String) := do
  try
    return some (← IO.FS.readFile name)
  catch _ => return none

/-- Answers lines until the input ends, or a line cannot be made out. Says whether the input ended. -/
partial def converse (session : Session) : IO Bool := do
  let line ← (← IO.getStdin).getLine
  match Text.lines line with
  | [] => return true
  | typed :: _ =>
    match Text.edited? typed with
    | none => return false
    | some text =>
      match Dialogue.answer depthLimit text session with
      | some (answer, after) =>
        IO.print answer
        (← IO.getStdout).flush
        converse after
      | none => throw (IO.userError "the bound on the depth of evaluation is met")

/-- Writes a report and gives its exit status. -/
def deliver (report : Report) : IO UInt32 := do
  IO.print report.output
  IO.eprint report.errors
  return report.status.toUInt32

end TinyScript

open TinyScript CommandLine in
/-- Does what the command line asks for. -/
def main (words : List String) : IO UInt32 := do
  match Request.ofWords words with
  | .run ⟨_, _, none⟩ =>
    IO.print Dialogue.greeting
    let complete ← converse .fresh
    deliver (.ofTranscript ⟨if complete then Dialogue.farewell else "", complete⟩)
  | request =>
    let text ← match request with
      | .run ⟨true, _, some name⟩ => readText name
      | _ => pure none
    match request.perform depthLimit (fun _ => text) "" with
    | some report => deliver report
    | none => return 1
