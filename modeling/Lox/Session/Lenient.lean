import Lox.Session

/-!
# Lenient runs

Running a text as far as it can be made sense of. Whatever scanning, parsing and resolving have
against it is dropped: what could be parsed is run, whether or not its names were resolved.
-/

namespace Lox.Session

/-- What a lenient run gives: a result or a runtime error, and the session afterwards. `none` if
it ran out of fuel. -/
abbrev Attempt (α : Type) := Option (Except RuntimeError α × Session)

/-- Resolves a tree as far as it can be, if asked to, and runs it. -/
def attemptWith {α : Type} (resolution : Option Resolution) (x : Exec α) (s : Session) :
    Attempt α :=
  match resolution with
  | some r => (s.learn r.table).attempt x
  | none => s.attempt x

/-- Runs the statements of a text that could be parsed. -/
def runLenient (fuel : Nat) (resolved : Bool) (source : String) (s : Session) : Attempt Unit :=
  let parsed := Program.parse (scanTokens source) s.nextSite
  let s := { s with nextSite := parsed.nextSite }
  s.attemptWith (if resolved then some (.ofProgram parsed.tree) else none)
    (Eval.interpret fuel parsed.tree)

/-- Evaluates the expression of a text by `eval`, which is `Eval.evaluate` or
`Eval.interpretExpression`; gives `none` if no expression could be parsed. -/
def evaluateLenient (eval : Expr → Exec Value) (resolved : Bool) (source : String)
    (s : Session) : Attempt (Option Value) :=
  let parsed := Expr.parse (scanTokens source) s.nextSite
  let s := { s with nextSite := parsed.nextSite }
  match parsed.tree with
  | some e =>
    s.attemptWith (if resolved then some (.ofExpr e) else none) (some <$> eval e)
  | none => some (.ok none, s)

end Lox.Session
