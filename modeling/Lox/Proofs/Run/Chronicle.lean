import Lox.Session
import Lox.Proofs.Run.Trace
import Lox.Proofs.Token.Spelled

/-!
# Sessions that remember

A `Chronicle` is a session with the history of everything that was run in it: each tree that gets as
far as being run is added to the roots, and its steps to the log. It goes through the same stages
with a text as a session does, and keeps its history also where it runs out of fuel.
`Chronicle.take_forget` and `Chronicle.takeAll_forget` prove that sessions do not depend on it. What
programs and expressions keep is kept by all steps of a session (`Chronicle.Invariant`).
-/

namespace Lox

namespace Eval

/-- Runs the statements of a program with their history. -/
def traceProgram (fuel : Nat) : List Stmt → Traced Unit
  | [] => pure ()
  | s :: ss => do
    let _ ← (Task.statement s).trace fuel .top
    traceProgram fuel ss

/-- Evaluates an expression and writes its value, with the history. -/
def traceExpression (fuel : Nat) (e : Expr) : Traced Value := do
  let value ← (Task.expression e).trace fuel .top
  let _ ← observe .top .nothing (Exec.writeLine value)
  return value

/-- The run before a tree is run whose references have these distances. -/
def Run.begin (table : Table) (root : Root) (r : Run) : Run where
  machine := r.machine.learn table
  history :=
    { r.history with origins.roots := root :: r.history.origins.roots }

end Eval

open Eval

/-- A session and all that happened in it. -/
structure Chronicle where
  run : Run
  nextSite : Site

namespace Chronicle

/-- The session without its history. -/
def session (c : Chronicle) : Session :=
  ⟨c.run.machine, c.nextSite⟩

/-- A session in which nothing happened yet. -/
def start (input : Input) (output : Output) (host : Host) : Chronicle where
  run :=
    { machine := .start input output host
      history := ⟨⟨fun _ => none, fun _ => [], []⟩, []⟩ }
  nextSite := 0

/-- What a text did: the errors it met, `none` if it ran out of fuel; and the chronicle
afterwards. -/
abbrev Outcome := Option (List Diagnostic) × Chronicle

/-- The outcome without the history. -/
def Outcome.forget : Outcome → Session.Outcome
  | (some errors, c) => some (errors, c.session)
  | (none, _) => none

/-! ## The stages -/

/-- Runs a tree whose names were resolved, unless that met errors. -/
def runResolved {α : Type} (resolution : Resolution) (root : Root) (x : Traced α)
    (c : Chronicle) : Outcome :=
  match resolution.errors with
  | [] =>
    match x (c.run.begin resolution.table root) with
    | .ok _ r => (some [], ⟨r, c.nextSite⟩)
    | .error (.fault e) r => (some [.runtime e], ⟨r, c.nextSite⟩)
    | .error .outOfFuel r => (none, ⟨r, c.nextSite⟩)
  | errors => (some (errors.map .scope), c)

/-- Runs tokens as a program. -/
def runTokens (fuel : Nat) (tokens : List Token) (c : Chronicle) : Outcome :=
  let parsed := Program.parse tokens c.nextSite
  let c := { c with nextSite := parsed.nextSite }
  match parsed.errors with
  | [] =>
    c.runResolved (.ofProgram parsed.tree) (.program parsed.tree) (traceProgram fuel parsed.tree)
  | errors => (some (errors.map .syntactic), c)

/-- Evaluates tokens as an expression and writes its value. -/
def evaluateTokens (fuel : Nat) (tokens : List Token) (c : Chronicle) : Outcome :=
  let parsed := Expr.parse tokens c.nextSite
  let c := { c with nextSite := parsed.nextSite }
  match parsed.tree, parsed.errors with
  | some e, [] => c.runResolved (.ofExpr e) (.expression e) (traceExpression fuel e)
  | _, errors => (some (errors.map .syntactic), c)

/-- Runs tokens as statements with an expression after them. -/
def runLineTokens (fuel : Nat) (tokens : List Token) (c : Chronicle) : Outcome :=
  let (statements, expression) := Session.splitStatements tokens
  if expression.length ≤ 1 then c.runTokens fuel tokens
  else
    match statements.getLast? with
    | none => c.evaluateTokens fuel tokens
    | some last =>
      match c.runTokens fuel (statements ++ [.endOf last.line]) with
      | (some [], c) => c.evaluateTokens fuel expression
      | outcome => outcome

/-- Scans a text and goes on with its tokens, unless that met errors. -/
def scanned (source : String) (next : List Token → Chronicle → Outcome) (c : Chronicle) : Outcome :=
  match scanErrors source with
  | [] => next (scanTokens source) c
  | errors => (some (errors.map .lexical), c)

/-- What a step does to a chronicle. -/
def take (fuel : Nat) (c : Chronicle) : Step → Outcome
  | .run source => c.scanned source (runTokens fuel)
  | .line source => c.scanned source (runLineTokens fuel)
  | .evaluate source => c.scanned source (evaluateTokens fuel)
  | .reset => (some [], c)

/-- The chronicle after steps in order, up to the one that runs out of fuel if there is one. -/
def takeAll (fuel : Nat) : List Step → Chronicle → Chronicle
  | [], c => c
  | step :: steps, c =>
    match c.take fuel step with
    | (some _, c) => takeAll fuel steps c
    | (none, c) => c

/-! ## Sessions do not depend on their history -/

theorem traceProgram_erases (fuel : Nat) (ss : List Stmt) :
    Erases (traceProgram fuel ss) (interpret fuel ss) := by
  induction ss with
  | nil => exact fun r => rfl
  | cons s ss ih => exact (Task.trace_erases fuel (.statement s) .top).bind fun _ => ih

theorem traceExpression_erases (fuel : Nat) (e : Expr) :
    Erases (traceExpression fuel e) (interpretExpression fuel e) := by
  refine (Task.trace_erases fuel (.expression e) .top).bind fun value => ?_
  refine (observe_erases .top .nothing (Exec.writeLine value)).bind fun _ => ?_
  exact fun r => rfl

theorem runResolved_forget {α : Type} (resolution : Resolution) (root : Root) {x : Traced α}
    {y : Exec α} (h : Erases x y) (c : Chronicle) :
    (c.runResolved resolution root x).forget = c.session.runResolved resolution y := by
  unfold runResolved Session.runResolved
  cases resolution.errors with
  | cons error errors => rfl
  | nil =>
    have hr := h (c.run.begin resolution.table root)
    unfold Session.attempt Session.learn session
    dsimp only
    cases hx : x (c.run.begin resolution.table root) with
    | ok a r =>
      rw [hx] at hr
      rw [show y (c.run.machine.learn resolution.table) = .ok a r.machine from hr]
      rfl
    | error e r =>
      rw [hx] at hr
      rw [show y (c.run.machine.learn resolution.table) = .error e r.machine from hr]
      cases e <;> rfl

theorem runTokens_forget (fuel : Nat) (tokens : List Token) (c : Chronicle) :
    (c.runTokens fuel tokens).forget = c.session.runTokens fuel tokens := by
  unfold runTokens Session.runTokens session
  dsimp only
  obtain ⟨tree, errors, nextSite⟩ := Program.parse tokens c.nextSite
  cases errors with
  | nil => exact runResolved_forget _ _ (traceProgram_erases fuel tree) ⟨c.run, nextSite⟩
  | cons error errors => rfl

theorem evaluateTokens_forget (fuel : Nat) (tokens : List Token) (c : Chronicle) :
    (c.evaluateTokens fuel tokens).forget = c.session.evaluateTokens fuel tokens := by
  unfold evaluateTokens Session.evaluateTokens session
  dsimp only
  obtain ⟨tree, errors, nextSite⟩ := Expr.parse tokens c.nextSite
  cases tree with
  | none => rfl
  | some e =>
    cases errors with
    | nil => exact runResolved_forget _ _ (traceExpression_erases fuel e) ⟨c.run, nextSite⟩
    | cons error errors => rfl

theorem runLineTokens_forget (fuel : Nat) (tokens : List Token) (c : Chronicle) :
    (c.runLineTokens fuel tokens).forget = c.session.runLineTokens fuel tokens := by
  unfold runLineTokens Session.runLineTokens
  obtain ⟨statements, expression⟩ := Session.splitStatements tokens
  dsimp only
  by_cases hshort : expression.length ≤ 1
  · rw [if_pos hshort, if_pos hshort]
    exact runTokens_forget fuel tokens c
  rw [if_neg hshort, if_neg hshort]
  cases statements.getLast? with
  | none => exact evaluateTokens_forget fuel tokens c
  | some last =>
    dsimp only
    rw [← runTokens_forget]
    generalize c.runTokens fuel (statements ++ [.endOf last.line]) = outcome
    obtain ⟨_ | _ | _, c'⟩ := outcome
    · rfl
    · exact evaluateTokens_forget fuel expression c'
    · rfl

theorem scanned_forget (source : String) {next : List Token → Chronicle → Outcome}
    {next' : List Token → Session → Session.Outcome}
    (h : ∀ tokens c, (next tokens c).forget = next' tokens c.session) (c : Chronicle) :
    (c.scanned source next).forget = c.session.scanned source next' := by
  unfold scanned Session.scanned
  cases scanErrors source with
  | nil => exact h _ c
  | cons error errors => rfl

/-- A step does the same to a session with its history as without. -/
theorem take_forget (fuel : Nat) (step : Step) (c : Chronicle) :
    (c.take fuel step).forget = step.outcome fuel c.session := by
  cases step with
  | run source => exact scanned_forget source (runTokens_forget fuel) c
  | line source => exact scanned_forget source (runLineTokens_forget fuel) c
  | evaluate source => exact scanned_forget source (evaluateTokens_forget fuel) c
  | reset => rfl

/-- Steps taken in order lead a session where they lead its chronicle, for as long as there is fuel.
-/
theorem takeAll_forget {ρ : Type} [Reporter ρ] {fuel : Nat} {steps : List Step} {c : Chronicle}
    {r r' : ρ} {s : Session} (h : Step.takeAll fuel steps c.session r = some (s, r')) :
    (takeAll fuel steps c).session = s := by
  induction steps generalizing c r with
  | nil =>
    cases h
    rfl
  | cons step steps ih =>
    unfold Step.takeAll Step.take at h
    rw [← take_forget] at h
    unfold takeAll
    generalize c.take fuel step = outcome at h ⊢
    obtain ⟨_ | errors, c'⟩ := outcome
    · cases h
    · exact ih h

/-! ## Invariants -/

/-- What holds where a tree ends, and held before resolving, holds after running the tree or
rejecting it. -/
theorem runResolved_leaves {I : Chronicle → Prop} {α : Type} {x : Traced α} {c : Chronicle}
    (resolution : Resolution) (root : Root) (h : I c)
    (hran : resolution.errors = [] →
      I ⟨endOf (x (c.run.begin resolution.table root)), c.nextSite⟩) :
    I (c.runResolved resolution root x).2 := by
  unfold runResolved
  cases herrors : resolution.errors with
  | cons error errors => exact h
  | nil =>
    have hend := hran herrors
    dsimp only
    cases hx : x (c.run.begin resolution.table root) with
    | ok a r =>
      rw [hx] at hend
      exact hend
    | error e r =>
      rw [hx] at hend
      cases e <;> exact hend

/-- Running tokens keeps what is invariant, as a program and as an expression, whatever comes of
it. -/
structure Invariant (I : Chronicle → Prop) : Prop where
  program : ∀ fuel tokens, (∀ t ∈ tokens, t.Spelled) → ∀ c, I c → I (c.runTokens fuel tokens).2
  expression : ∀ fuel tokens, (∀ t ∈ tokens, t.Spelled) → ∀ c, I c →
    I (c.evaluateTokens fuel tokens).2

namespace Invariant

/-- An invariant that does not depend on the sites still to be given out. -/
theorem of_runs {I : Chronicle → Prop} (hsites : ∀ {r n} n', I ⟨r, n⟩ → I ⟨r, n'⟩)
    (hbegin : ∀ {c} table root, I c → I ⟨c.run.begin table root, c.nextSite⟩)
    (hprogram : ∀ {c} fuel ss, I c → I ⟨endOf (traceProgram fuel ss c.run), c.nextSite⟩)
    (hexpression : ∀ {c} fuel e, I c → I ⟨endOf (traceExpression fuel e c.run), c.nextSite⟩) :
    Invariant I where
  program fuel tokens _ c h := by
    unfold runTokens
    obtain ⟨ss, errors, nextSite⟩ := Program.parse tokens c.nextSite
    have h' : I ⟨c.run, nextSite⟩ := hsites nextSite h
    cases errors with
    | cons error errors => exact h'
    | nil => exact runResolved_leaves _ _ h' fun _ => hprogram fuel ss (hbegin _ _ h')
  expression fuel tokens _ c h := by
    unfold evaluateTokens
    obtain ⟨_ | e, errors, nextSite⟩ := Expr.parse tokens c.nextSite
    · exact hsites nextSite h
    have h' : I ⟨c.run, nextSite⟩ := hsites nextSite h
    cases errors with
    | cons error errors => exact h'
    | nil => exact runResolved_leaves _ _ h' fun _ => hexpression fuel e (hbegin _ _ h')

variable {I : Chronicle → Prop} (hI : Invariant I)

include hI

theorem line (fuel : Nat) (tokens : List Token) (hspelled : ∀ t ∈ tokens, t.Spelled)
    (c : Chronicle) (h : I c) : I (c.runLineTokens fuel tokens).2 := by
  have hparts := Session.splitStatements_append tokens
  unfold runLineTokens
  generalize Session.splitStatements tokens = parts at hparts
  obtain ⟨statements, expression⟩ := parts
  dsimp only at hparts ⊢
  by_cases hshort : expression.length ≤ 1
  · rw [if_pos hshort]
    exact hI.program fuel tokens hspelled c h
  rw [if_neg hshort]
  cases statements.getLast? with
  | none => exact hI.expression fuel tokens hspelled c h
  | some last =>
    have hstatements : ∀ t ∈ statements ++ [Token.endOf last.line], t.Spelled := by
      intro t ht
      rcases List.mem_append.mp ht with ht | ht
      · exact hspelled t (hparts ▸ List.mem_append_left _ ht)
      · rw [List.mem_singleton.mp ht]
        exact .of_kind (fun _ h => nomatch h) (fun h => nomatch h)
    have hexpression : ∀ t ∈ expression, t.Spelled :=
      fun t ht => hspelled t (hparts ▸ List.mem_append_right _ ht)
    have hrun := hI.program fuel _ hstatements c h
    dsimp only
    generalize c.runTokens fuel (statements ++ [.endOf last.line]) = outcome at hrun
    obtain ⟨_ | _ | _, c'⟩ := outcome
    · exact hrun
    · exact hI.expression fuel expression hexpression c' hrun
    · exact hrun

omit hI in
theorem scanned (source : String) {next : List Token → Chronicle → Outcome}
    (hnext : ∀ tokens, (∀ t ∈ tokens, t.Spelled) → ∀ c, I c → I (next tokens c).2) (c : Chronicle)
    (h : I c) : I (c.scanned source next).2 := by
  unfold Chronicle.scanned
  cases scanErrors source with
  | nil => exact hnext _ (fun t ht => scanTokens_spelled ht) c h
  | cons error errors => exact h

theorem take (fuel : Nat) (step : Step) (c : Chronicle) (h : I c) : I (c.take fuel step).2 := by
  cases step with
  | run source => exact scanned source (hI.program fuel) c h
  | line source => exact scanned source (hI.line fuel) c h
  | evaluate source => exact scanned source (hI.expression fuel) c h
  | reset => exact h

/-- All steps of a session keep what is invariant. -/
theorem takeAll (fuel : Nat) (steps : List Step) (c : Chronicle) (h : I c) :
    I (takeAll fuel steps c) := by
  induction steps generalizing c with
  | nil => exact h
  | cons step steps ih =>
    have hstep := hI.take fuel step c h
    unfold Chronicle.takeAll
    generalize c.take fuel step = outcome at hstep
    obtain ⟨_ | errors, c'⟩ := outcome
    · exact hstep
    · exact ih c' hstep

end Invariant

end Chronicle

end Lox
