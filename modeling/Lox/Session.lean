import Lox.Report
import Lox.Grammar
import Lox.Eval

/-!
# Sessions

A machine that runs one text after another. Each text goes through the stages in order: it is
scanned, parsed, resolved and run, and an error at one stage keeps it from the next. Variables,
functions and the distances of references last from one text to the next, and so do the numbers
of sites, so no two references of a session share one.
-/

namespace Lox

/-- A machine, and the first number not yet given to a reference. -/
structure Session where
  machine : Machine
  nextSite : Site

namespace Session

/-- A session in which nothing was run yet. -/
def start (input : Input) (output : Output) (host : Host) : Session :=
  ⟨.start input output host, 0⟩

/-! ## Running resolved trees -/

/-- Runs a computation on the machine; `none` if it runs out of fuel. -/
def attempt {α : Type} (x : Exec α) : Session → Option (Except RuntimeError α × Session)
  | ⟨machine, nextSite⟩ =>
    match x machine with
    | .ok a m => some (.ok a, ⟨m, nextSite⟩)
    | .error (.fault e) m => some (.error e, ⟨m, nextSite⟩)
    | .error .outOfFuel _ => none

/-- Adds the distances of newly resolved references to those known. -/
def learn (table : Table) : Session → Session
  | ⟨machine, nextSite⟩ => ⟨machine.learn table, nextSite⟩

/-- What a text did that was put through the stages: the errors it met, which all come from one
stage, and the session afterwards. `none` if it ran out of fuel. -/
abbrev Outcome := Option (List Diagnostic × Session)

/-- A text that does not get as far as being run. -/
def reject (errors : List Diagnostic) (s : Session) : Outcome :=
  some (errors, s)

/-- Runs a computation whose names were resolved, unless that met errors. -/
def runResolved {α : Type} (resolution : Resolution) (x : Exec α) (s : Session) : Outcome :=
  match resolution.errors with
  | [] =>
    match (s.learn resolution.table).attempt x with
    | some (.ok _, s) => some ([], s)
    | some (.error e, s) => some ([.runtime e], s)
    | none => none
  | errors => s.reject (errors.map .scope)

/-! ## Running tokens -/

/-- Runs tokens as a program. -/
def runTokens (fuel : Nat) (tokens : List Token) (s : Session) : Outcome :=
  let parsed := Program.parse tokens s.nextSite
  let s := { s with nextSite := parsed.nextSite }
  match parsed.errors with
  | [] => s.runResolved (.ofProgram parsed.tree) (Eval.interpret fuel parsed.tree)
  | errors => s.reject (errors.map .syntactic)

/-- Evaluates tokens as an expression and writes its value. -/
def evaluateTokens (fuel : Nat) (tokens : List Token) (s : Session) : Outcome :=
  let parsed := Expr.parse tokens s.nextSite
  let s := { s with nextSite := parsed.nextSite }
  match parsed.tree, parsed.errors with
  | some e, [] => s.runResolved (.ofExpr e) (Eval.interpretExpression fuel e)
  | _, errors => s.reject (errors.map .syntactic)

/-- Is the token one that statements end with? -/
def endsStatement (t : Token) : Bool :=
  t.isMark .semicolon || t.isMark .rightBrace

/-- The tokens up to and with the last one that statements end with, and those after it. -/
def splitStatements (tokens : List Token) : List Token × List Token :=
  ((tokens.reverse.dropWhile fun t => !endsStatement t).reverse,
    (tokens.reverse.takeWhile fun t => !endsStatement t).reverse)

/-- The two parts make up the tokens. -/
theorem splitStatements_append (tokens : List Token) :
    (splitStatements tokens).1 ++ (splitStatements tokens).2 = tokens := by
  rw [splitStatements, ← List.reverse_append, List.takeWhile_append_dropWhile,
    List.reverse_reverse]

/-- Runs tokens as statements with an expression after them that is evaluated and written. Either
may be absent; the expression is left out if the statements meet an error. -/
def runLineTokens (fuel : Nat) (tokens : List Token) (s : Session) : Outcome :=
  let (statements, expression) := splitStatements tokens
  if expression.length ≤ 1 then s.runTokens fuel tokens
  else
    match statements.getLast? with
    | none => s.evaluateTokens fuel tokens
    | some last =>
      match s.runTokens fuel (statements ++ [.endOf last.line]) with
      | some ([], s) => s.evaluateTokens fuel expression
      | outcome => outcome

/-! ## Running texts -/

/-- Scans a text and goes on with its tokens, unless that met errors. -/
def scanned (source : String) (next : List Token → Session → Outcome) (s : Session) : Outcome :=
  match scanErrors source with
  | [] => next (scanTokens source) s
  | errors => s.reject (errors.map .lexical)

/-- Runs a text as a program. -/
def run (fuel : Nat) (source : String) (s : Session) : Outcome :=
  s.scanned source (runTokens fuel)

/-- Evaluates a text as an expression and writes its value. -/
def evaluate (fuel : Nat) (source : String) (s : Session) : Outcome :=
  s.scanned source (evaluateTokens fuel)

/-- Runs a text as a line typed at a prompt: statements up to the last semicolon or closing brace,
then an expression whose value is written. -/
def runLine (fuel : Nat) (source : String) (s : Session) : Outcome :=
  s.scanned source (runLineTokens fuel)

end Session

/-! ## Scripts -/

/-- One step of a session. -/
inductive Step where
  | run (source : String)
  | line (source : String)
  | evaluate (source : String)
  /-- The reporter forgets that errors came. -/
  | reset
  deriving DecidableEq, Repr

namespace Step

/-- What a step does to a session. -/
def outcome (fuel : Nat) (s : Session) : Step → Session.Outcome
  | .run source => s.run fuel source
  | .line source => s.runLine fuel source
  | .evaluate source => s.evaluate fuel source
  | .reset => some ([], s)

/-- What a step does to a reporter, given the errors it met. -/
def tell {ρ : Type} [Reporter ρ] (errors : List Diagnostic) (r : ρ) : Step → ρ
  | .reset => Reporter.reset r
  | _ => Reporter.reportAll errors r

/-- Takes a step; `none` if it runs out of fuel. -/
def take {ρ : Type} [Reporter ρ] (fuel : Nat) (step : Step) (s : Session) (r : ρ) :
    Option (Session × ρ) :=
  match step.outcome fuel s with
  | some (errors, s) => some (s, step.tell errors r)
  | none => none

/-- Takes steps in order. -/
def takeAll {ρ : Type} [Reporter ρ] (fuel : Nat) : List Step → Session → ρ → Option (Session × ρ)
  | [], s, r => some (s, r)
  | step :: steps, s, r =>
    match step.take fuel s r with
    | some (s, r) => takeAll fuel steps s r
    | none => none

end Step

end Lox
