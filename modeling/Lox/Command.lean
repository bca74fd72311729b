import Lox.Session
import Lox.Token.Listing
import Lox.Tree.Parenthesized
import Lox.Text.Quoted

/-!
# The command line

What each command does with a file and with standard input: the bytes and the text it writes, and
the status it exits with. Status 65 says that a text was not fit to be run, 70 that running it
failed, 1 that a file or standard input could not be read.
-/

namespace Lox

/-- A command. -/
inductive Command where
  /-- Lists the tokens of a file, in columns or as JSON. -/
  | tokenize (file : String) (json : Bool)
  /-- Writes the tree of the expression that a file holds. -/
  | parse (file : String)
  /-- Writes the value of the expression that a file holds. -/
  | evaluate (file : String)
  /-- Runs the program that a file holds. -/
  | run (file : String)
  /-- Runs lines typed at a prompt. -/
  | prompt
  deriving DecidableEq, Repr

/-- A command, and whether to keep a log. -/
structure Invocation where
  command : Command
  log : Bool
  deriving DecidableEq, Repr

namespace Invocation

/-- Is the argument an option, by its looks? -/
def isOption (argument : String) : Bool :=
  argument.toList.head? = some '-' && argument ≠ "-"

/-- The command that arguments other than `--log` ask for. -/
def command? : List String → Option Command
  | [] | ["repl"] => some .prompt
  | "tokenize" :: arguments =>
    match arguments.filter (· ≠ "--json") with
    | [file] => if isOption file then none else some (.tokenize file (arguments.contains "--json"))
    | _ => none
  | ["parse", file] => if isOption file then none else some (.parse file)
  | ["evaluate", file] => if isOption file then none else some (.evaluate file)
  | ["run", file] => if isOption file then none else some (.run file)
  | _ => none

/-- What the arguments of the program ask for, if they make sense. Without any, the prompt. -/
def ofArguments? (arguments : List String) : Option Invocation :=
  (command? (arguments.filter (· ≠ "--log"))).map fun command =>
    ⟨command, arguments.contains "--log"⟩

end Invocation

/-- Why text cannot be read. -/
inductive ReadFailure where
  | missing
  | notText
  deriving DecidableEq, Repr

/-- The wording of a failure to read. -/
def ReadFailure.message : ReadFailure → String
  | .missing => "No such file or directory (os error 2)"
  | .notText => "stream did not contain valid UTF-8"

/-- What a command leaves behind. -/
structure Transcript where
  stdout : Array UInt8
  stderr : String
  status : Nat
  deriving DecidableEq

namespace Transcript

/-- The texts, each on a line of its own. -/
def lines (texts : List String) : String :=
  String.join (texts.map (· ++ "\n"))

/-- Lines on standard output and lines on standard error. -/
def ofLines (stdout stderr : List String) (status : Nat) : Transcript :=
  ⟨(lines stdout).toUTF8.data, lines stderr, status⟩

/-- What a command leaves behind that goes no further because it cannot read something. -/
def unreadable (what : String) (failure : ReadFailure) (t : Transcript) : Transcript :=
  { t with
    stderr := t.stderr ++ "Error: Failed to read " ++ what ++ "\n\nCaused by:\n    "
      ++ failure.message ++ "\n"
    status := 1 }

end Transcript

namespace Command

/-- The text in a file; `none` stands for a file that does not exist. -/
def readSource : Option (List UInt8) → Except ReadFailure String
  | none => .error .missing
  | some bytes =>
    match Input.decode? bytes with
    | some source => .ok source
    | none => .error .notText

/-- A command on a file: goes on with the text in it. -/
def withSource (name : String) (content : Option (List UInt8))
    (next : String → Option Transcript) : Option Transcript :=
  match readSource content with
  | .ok source => next source
  | .error failure =>
    some ((Transcript.ofLines [] [] 0).unreadable ("file " ++ Text.quoted name) failure)

/-! ## Commands that only look at a text -/

/-- The tokens of a text on standard output, its errors on standard error. -/
def tokenizeSource (json : Bool) (source : String) : Transcript :=
  let errors := scanErrors source
  .ofLines ((scanTokens source).map fun t => if json then t.json else t.columns)
    (errors.map (·.text)) (if errors.isEmpty then 0 else 65)

/-- The tree of the expression that a text holds. Errors of all stages are listed, and any of them
keeps the tree from being written. -/
def parseSource (source : String) : Transcript :=
  let lexical := scanErrors source
  let parsed := Expr.parse (scanTokens source) 0
  let errors := lexical.map (·.text) ++ parsed.errors.map (·.text)
  match parsed.tree, errors with
  | some e, [] => .ofLines [e.parenthesized] [] 0
  | _, errors => .ofLines [] errors 65

/-! ## Commands that run a text -/

/-- What a session and its journal amount to at the end. -/
def finish (status : Nat) (s : Session) (j : Journal) : Transcript :=
  ⟨s.machine.output.bytes, j.text, status⟩

/-- Takes one step in a new session. -/
def runStep (fuel : Nat) (host : Host) (stdin : List UInt8) (step : Step) : Option Transcript :=
  match step.take fuel (.start ⟨stdin⟩ {} host) Journal.empty with
  | some (s, j) => some (finish (Reporter.status j) s j)
  | none => none

/-! ## The prompt -/

/-- Writes a text. -/
def write (text : String) : Session → Session
  | ⟨machine, nextSite⟩ =>
    ⟨{ machine with output := (machine.output.writeBytes text.toUTF8.data).2 }, nextSite⟩

/-- Reads a line. -/
def takeLine : Session → Line × Session
  | ⟨machine, nextSite⟩ =>
    let (line, input) := machine.input.takeLine
    (line, ⟨{ machine with input }, nextSite⟩)

/-- Reads lines, writing a prompt before each, and runs them until none is left. Lines that `input`
statements take are not run. A line that meets errors does not end the session; one that is no text
does. -/
def promptLoop : Nat → Session → Journal → Option Transcript
  | 0, _, _ => none
  | fuel + 1, s, j =>
    let (line, s) := takeLine (write "> " s)
    match line with
    | .absent => some (finish 0 (write "\n" s) j)
    | .unreadable => some ((finish 0 s j).unreadable "from stdin" .notText)
    | .text source =>
      match (Step.line source).take fuel s j with
      | some (s, j) => promptLoop fuel s (Reporter.reset j)
      | none => none

/-! ## All commands -/

/-- The file that a command reads. -/
def file? : Command → Option String
  | .tokenize file _ | .parse file | .evaluate file | .run file => some file
  | .prompt => none

/-- Can the command come to read standard input, given the content of its file? -/
def readsInput (content : Option (List UInt8)) : Command → Bool
  | .tokenize _ _ | .parse _ => false
  | .evaluate _ | .run _ =>
    match readSource content with
    | .ok source => (scanTokens source).any fun t => t.isKeyword .inputKw
    | .error _ => false
  | .prompt => true

/-- What a command does, given the content of its file; `none` if it runs out of fuel. -/
def perform (fuel : Nat) (host : Host) (content : Option (List UInt8)) (stdin : List UInt8) :
    Command → Option Transcript
  | .tokenize file json => withSource file content fun source => some (tokenizeSource json source)
  | .parse file => withSource file content fun source => some (parseSource source)
  | .evaluate file =>
    withSource file content fun source => runStep fuel host stdin (.evaluate source)
  | .run file => withSource file content fun source => runStep fuel host stdin (.run source)
  | .prompt => promptLoop fuel (.start ⟨stdin⟩ {} host) .empty

end Command

end Lox
