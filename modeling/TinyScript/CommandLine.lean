import TinyScript.Dialogue
import TinyScript.Text.Edited
import TinyScript.Text.Fx
import TinyScript.Text.Lines

/-! # The command line

The words of a command line ask for a script to be run, for a dialogue, or for a word about the program.
Words are read from left to right, and the first one that settles the matter does so: a flag that is not
known or is given twice, a second script, or a question for the version or for help. Flags of one letter
may share a hyphen, a word of one hyphen is no flag, and after a word of two hyphens no word is.

What the programs of the library leave open is settled here: strings are told apart as keys by the Fx hash,
and the lines of a dialogue are read with their backspaces applied.
-/

namespace TinyScript.CommandLine

/-- What has been asked for so far. -/
structure Options where
  /-- The script is the name of a file that holds it. -/
  fromFile : Bool
  /-- The value of the script is printed. -/
  printsValue : Bool
  script : Option String
  deriving DecidableEq

/-- Nothing has been asked for. -/
def Options.initial : Options := ⟨false, false, .none⟩

/-- What a command line asks for. -/
inductive Request where
  | run (options : Options)
  | version
  | help
  | misuse
  deriving DecidableEq

/-- The flags. -/
inductive Flag where
  | file
  | pipeMode
  | version
  | help
  deriving DecidableEq

/-- The flag of a letter. -/
def Flag.ofLetter? : Char → Option Flag
  | 'f' => some .file
  | 'p' => some .pipeMode
  | 'V' => some .version
  | 'h' => some .help
  | _ => none

/-- The flag of a word. -/
def Flag.ofWord? : String → Option Flag
  | "--file" => some .file
  | "--pipe-mode" => some .pipeMode
  | "--version" => some .version
  | "--help" => some .help
  | _ => none

/-- Takes note of a flag, or settles what is asked for. -/
def Options.withFlag (options : Options) : Option Flag → Except Request Options
  | some .file =>
    if options.fromFile then .error .misuse else .ok { options with fromFile := true }
  | some .pipeMode =>
    if options.printsValue then .error .misuse else .ok { options with printsValue := true }
  | some .version => .error .version
  | some .help => .error .help
  | none => .error .misuse

/-- Takes note of flags that share a hyphen. -/
def Options.withLetters (options : Options) : List Char → Except Request Options
  | [] => .ok options
  | c :: cs =>
    match options.withFlag (Flag.ofLetter? c) with
    | .ok options => options.withLetters cs
    | .error request => .error request

/-- Takes note of the script; there is at most one. -/
def Options.withScript (options : Options) (word : String) : Except Request Options :=
  match options.script with
  | some _ => .error .misuse
  | none => .ok { options with script := some word }

/-- Takes note of words of which none is a flag. -/
def Options.withScripts (options : Options) : List String → Request
  | [] => .run options
  | word :: words =>
    match options.withScript word with
    | .ok options => options.withScripts words
    | .error request => request

/-- Takes note of a word. -/
def Options.withWord (options : Options) (word : String) : Except Request Options :=
  match word.toList with
  | '-' :: '-' :: _ => options.withFlag (Flag.ofWord? word)
  | '-' :: c :: cs => options.withLetters (c :: cs)
  | _ => options.withScript word

/-- Takes note of words. -/
def Options.withWords (options : Options) : List String → Request
  | [] => .run options
  | word :: words =>
    if word = "--" then options.withScripts words
    else
      match options.withWord word with
      | .ok options => options.withWords words
      | .error request => request

/-- What the words of a command line ask for. -/
def Request.ofWords (words : List String) : Request :=
  Options.initial.withWords words

/-- What a run of the program leaves: its exit status and what it wrote. -/
structure Report where
  status : Nat
  output : String
  errors : String
  deriving DecidableEq

/-- The name and the version of the program. -/
def versionText : String := "monlox 0.1.0\n"

/-- How the program is used. -/
def helpText : String := Text.concatenated [
  "monlox is a small scripting language with first-class functions, closures, arrays and hashes.\n\n",
  "Without CONTENTS an interactive session starts.\n\n",
  "Usage: monlox [OPTIONS] [CONTENTS]\n\n",
  "Arguments:\n",
  "  [CONTENTS]\n\n",
  "Options:\n",
  "  -f, --file       Read CONTENTS as a file path instead of a script\n",
  "  -p, --pipe-mode  Print the value of the last statement of the script\n",
  "  -h, --help       Print help\n",
  "  -V, --version    Print version\n"]

/-- What is said of a command line that asks for nothing the program does. -/
def misuseText : String := Text.concatenated [
  "error: unexpected argument found\n\n",
  "Usage: monlox [OPTIONS] [CONTENTS]\n\n",
  "For more information, try '--help'.\n"]

/-- What is said of a file that is not there, or holds no text. -/
def unreadableText (name : String) : String :=
  "Failed to read the input file '" ++ name ++ "'. Perhaps this file does not exist?\n"

/-- What is said of a line of a dialogue that cannot be made out. -/
def brokenText : String := "A line cannot be read: a backspace cuts a character in two.\n"

/-- The report of a dialogue. -/
def Report.ofTranscript (transcript : Dialogue.Transcript) : Report :=
  if transcript.complete then ⟨0, transcript.text, ""⟩ else ⟨101, transcript.text, brokenText⟩

/-- The report of a script that ended. -/
def Report.ofResult (printsValue : Bool) : Result → Report
  | .value object => ⟨0, if printsValue then object.render ++ "\n" else "", ""⟩
  | .malformed errors => ⟨1, "", "parser errors:\n" ++ SyntaxError.report errors ++ "\n"⟩
  | .failed failure => ⟨1, "", failure.message ++ "\n"⟩

/-- Runs a script. -/
def runScript (depth : Nat) (printsValue : Bool) (script : String) : Option Report :=
  (Result.ofSource depth script).map (Report.ofResult printsValue)

/-- What is read of typed lines: what they stand for once their backspaces are applied. -/
def heard : List String → Dialogue.Heard
  | [] => ⟨[], true⟩
  | typed :: rest =>
    match Text.edited? typed with
    | some line => ⟨line :: (heard rest).lines, (heard rest).complete⟩
    | none => ⟨[], false⟩

/-- Does what is asked for, given the texts of the files there are and the input for a dialogue. -/
def Request.perform (depth : Nat) (readText : String → Option String) (input : String) :
    Request → Option Report
  | .version => some ⟨0, versionText, ""⟩
  | .help => some ⟨0, helpText, ""⟩
  | .misuse => some ⟨2, "", misuseText⟩
  | .run ⟨_, _, none⟩ => (Dialogue.transcript depth (heard (Text.lines input))).map Report.ofTranscript
  | .run ⟨false, printsValue, some script⟩ => runScript depth printsValue script
  | .run ⟨true, printsValue, some name⟩ =>
    match readText name with
    | some script => runScript depth printsValue script
    | none => some ⟨1, "", unreadableText name⟩

end TinyScript.CommandLine
