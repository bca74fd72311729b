import Lox.Token.Scan
import Lox.Grammar.Problem
import Lox.Resolution
import Lox.Fault

/-!
# Reporting errors

A diagnostic is an error of any stage. Diagnostics go to a reporter, which remembers whether
any came since it was last reset. There are two reporters: a `Journal` writes diagnostics down as
text, a `Collection` keeps them, those of each stage together. Both remember the same
(`Journal.Agrees`).
-/

namespace Lox

/-- The stages that report errors, in the order in which a text goes through them. -/
inductive Stage where
  | lexical
  | syntactic
  | scope
  | runtime
  deriving DecidableEq, Repr

/-- An error of any stage. -/
inductive Diagnostic where
  | lexical (e : LexicalError)
  | syntactic (e : SyntaxError)
  | scope (e : ScopeError)
  | runtime (e : RuntimeError)
  deriving DecidableEq

namespace Diagnostic

/-- The stage that an error comes from. -/
def stage : Diagnostic → Stage
  | .lexical _ => .lexical
  | .syntactic _ => .syntactic
  | .scope _ => .scope
  | .runtime _ => .runtime

/-- Does the error come from running a program? All others keep it from being run. -/
def isRuntime (d : Diagnostic) : Bool :=
  d.stage = .runtime

/-- The wording of an error, with its place. -/
def text : Diagnostic → String
  | .lexical e => e.text
  | .syntactic e => e.text
  | .scope e => e.text
  | .runtime e => e.text

end Diagnostic

/-- Something that diagnostics go to. -/
class Reporter (ρ : Type) where
  /-- Takes note of a diagnostic. -/
  report : Diagnostic → ρ → ρ
  /-- Has an error come, since the last reset, that kept a text from being run? -/
  hadError : ρ → Bool
  /-- Has a runtime error come since the last reset? -/
  hadRuntimeError : ρ → Bool
  /-- Forgets that errors came. -/
  reset : ρ → ρ

namespace Reporter

variable {ρ : Type} [Reporter ρ]

/-- Takes note of diagnostics in order. -/
def reportAll (ds : List Diagnostic) (r : ρ) : ρ :=
  ds.foldl (fun r d => report d r) r

/-- The exit status that the errors since the last reset call for. -/
def status (r : ρ) : Nat :=
  if hadError r then 65 else if hadRuntimeError r then 70 else 0

end Reporter

/-! ## Writing diagnostics down -/

/-- The text of all diagnostics so far, and what kinds came since the last reset. -/
structure Journal where
  text : String
  hadError : Bool
  hadRuntimeError : Bool
  deriving DecidableEq, Repr

namespace Journal

/-- A journal with nothing in it. -/
def empty : Journal :=
  ⟨"", false, false⟩

/-- The line or lines that a diagnostic takes in a journal, which counts lexical errors as errors
of syntax. -/
def entry : Diagnostic → String
  | .lexical e => "[line " ++ toString e.line ++ "] Syntax error: " ++ e.message ++ "\n"
  | d => d.text ++ "\n"

/-- Writes a diagnostic down. -/
def report (d : Diagnostic) (j : Journal) : Journal :=
  { text := j.text ++ entry d
    hadError := j.hadError || !d.isRuntime
    hadRuntimeError := j.hadRuntimeError || d.isRuntime }

/-- Forgets that errors came; what is written stays. -/
def reset (j : Journal) : Journal :=
  { j with hadError := false, hadRuntimeError := false }

instance : Reporter Journal where
  report := report
  hadError := hadError
  hadRuntimeError := hadRuntimeError
  reset := reset

end Journal

/-! ## Keeping diagnostics -/

/-- The diagnostics since the last reset, by stage. -/
structure Collection where
  lexical : List LexicalError
  syntactic : List SyntaxError
  scope : List ScopeError
  runtime : List RuntimeError
  deriving DecidableEq

namespace Collection

/-- A collection with nothing in it. -/
def empty : Collection :=
  ⟨[], [], [], []⟩

/-- Keeps a diagnostic. -/
def report (d : Diagnostic) (c : Collection) : Collection :=
  match d with
  | .lexical e => { c with lexical := c.lexical ++ [e] }
  | .syntactic e => { c with syntactic := c.syntactic ++ [e] }
  | .scope e => { c with scope := c.scope ++ [e] }
  | .runtime e => { c with runtime := c.runtime ++ [e] }

/-- Is there an error that kept a text from being run? -/
def hadError (c : Collection) : Bool :=
  !(c.lexical.isEmpty && c.syntactic.isEmpty && c.scope.isEmpty)

/-- Is there a runtime error? -/
def hadRuntimeError (c : Collection) : Bool :=
  !c.runtime.isEmpty

/-- All diagnostics, stage by stage. -/
def all (c : Collection) : List Diagnostic :=
  c.lexical.map .lexical ++ c.syntactic.map .syntactic ++ c.scope.map .scope
    ++ c.runtime.map .runtime

instance : Reporter Collection where
  report := report
  hadError := hadError
  hadRuntimeError := hadRuntimeError
  reset _ := empty

end Collection

/-! ## Agreement -/

/-- A journal and a collection that remember the same. -/
def Journal.Agrees (j : Journal) (c : Collection) : Prop :=
  j.hadError = c.hadError ∧ j.hadRuntimeError = c.hadRuntimeError

namespace Journal.Agrees

theorem empty : Journal.empty.Agrees .empty :=
  ⟨rfl, rfl⟩

/-- The same diagnostic keeps both in agreement. -/
theorem report {j : Journal} {c : Collection} (h : j.Agrees c) (d : Diagnostic) :
    (j.report d).Agrees (c.report d) := by
  obtain ⟨he, hr⟩ := h
  cases d <;>
    simp [Agrees, Journal.report, Collection.report, Diagnostic.isRuntime, Diagnostic.stage,
      he, hr, Collection.hadError, Collection.hadRuntimeError]

/-- The same diagnostics keep both in agreement. -/
theorem reportAll {j : Journal} {c : Collection} (h : j.Agrees c) (ds : List Diagnostic) :
    (Reporter.reportAll ds j).Agrees (Reporter.reportAll ds c) := by
  induction ds generalizing j c with
  | nil => exact h
  | cons d ds ih => exact ih (h.report d)

/-- Reporters in agreement call for the same exit status. -/
theorem status_eq {j : Journal} {c : Collection} (h : j.Agrees c) :
    Reporter.status j = Reporter.status c := by
  obtain ⟨he, hr⟩ := h
  change (if j.hadError then 65 else if j.hadRuntimeError then 70 else 0)
    = (if c.hadError then 65 else if c.hadRuntimeError then 70 else 0)
  rw [he, hr]

/-- A reset of both keeps them in agreement. -/
theorem reset (j : Journal) : j.reset.Agrees .empty :=
  ⟨rfl, rfl⟩

end Journal.Agrees

end Lox
