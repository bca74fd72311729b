import Lox.Command
import Lox.Session.Lenient
import Lox.Proofs.Run.Chronicle

/-!
# All that a session can be asked to do

A deed is a step, a text run as far as it can be made sense of, with or without its names resolved,
or a line that is read at the prompt and run. Deeds have histories, as steps do, and a session does
not depend on them (`Chronicle.perform_forget`). A prompt is a row of deeds
(`Command.promptLoop_performed`).
-/

namespace Lox

open Eval

/-- Something that a session can be asked to do. -/
inductive Deed where
  | take (step : Step)
  /-- The statements of a text that could be parsed are run. -/
  | runLeniently (resolved : Bool) (source : String)
  /-- The expression of a text is evaluated, and its value written or not. -/
  | evaluateLeniently (written resolved : Bool) (source : String)
  /-- A prompt is written, and the line that is read is run. -/
  | prompt
  deriving DecidableEq, Repr

/-- An attempt as the outcome of a text: a runtime error is one that is reported. -/
def Session.Attempt.outcome {α : Type} : Session.Attempt α → Session.Outcome
  | some (.ok _, s) => some ([], s)
  | some (.error e, s) => some ([.runtime e], s)
  | none => none

/-- How an expression is evaluated, whose value may be written. -/
def Deed.evaluator (fuel : Nat) (written : Bool) (e : Expr) : Exec Value :=
  if written then interpretExpression fuel e else evaluate fuel e

namespace Command

/-- A prompt is written and a line read. -/
def promptedLine (s : Session) : Line × Session :=
  takeLine (write "> " s)

end Command

/-- The text of a line, if it could be read. -/
def Line.text? : Line → Option String
  | .text source => some source
  | .absent | .unreadable => none

/-- What a deed does to a session. -/
def Deed.outcome (fuel : Nat) (s : Session) : Deed → Session.Outcome
  | .take step => step.outcome fuel s
  | .runLeniently resolved source => Session.Attempt.outcome (s.runLenient fuel resolved source)
  | .evaluateLeniently written resolved source =>
    Session.Attempt.outcome (s.evaluateLenient (Deed.evaluator fuel written) resolved source)
  | .prompt =>
    match Command.promptedLine s with
    | (.text source, s) => s.runLine fuel source
    | (_, s) => some ([], s)

/-- The text that a deed puts through the stages. -/
def Deed.text? (s : Session) : Deed → Option String
  | .take (.run source) | .take (.line source) | .take (.evaluate source)
  | .runLeniently _ source | .evaluateLeniently _ _ source => some source
  | .take .reset => none
  | .prompt => (Command.promptedLine s).1.text?

/-- Deeds in order, each with so much fuel. -/
abbrev Deeds := List (Nat × Deed)

/-- What deeds do to a session; `none` if one runs out of fuel. -/
def Session.performAll : Deeds → Session → Option Session
  | [], s => some s
  | (fuel, deed) :: deeds, s =>
    match deed.outcome fuel s with
    | some (_, s) => performAll deeds s
    | none => none

/-- One turn of the prompt. -/
theorem Command.promptLoop_succ (fuel : Nat) (s : Session) (j : Journal) :
    promptLoop (fuel + 1) s j = match promptedLine s with
      | (.absent, s) => some (finish 0 (write "\n" s) j)
      | (.unreadable, s) => some ((finish 0 s j).unreadable "from stdin" .notText)
      | (.text source, s) =>
        match (Step.line source).take fuel s j with
        | some (s, j) => promptLoop fuel s (Reporter.reset j)
        | none => none := by
  rw [promptLoop]
  unfold promptedLine
  generalize takeLine (write "> " s) = prompted
  obtain ⟨_ | source | _, s⟩ := prompted <;> rfl

/-- What a prompt does is done by deeds, one for each line that is read. -/
theorem Command.promptLoop_performed {fuel : Nat} {s : Session} {j : Journal} {t : Transcript}
    (h : promptLoop fuel s j = some t) :
    ∃ (deeds : Deeds) (s' : Session), (∀ d ∈ deeds, d.2 = .prompt) ∧
      s.performAll deeds = some s' ∧ (t.stdout = s'.machine.output.bytes ∨
        t.stdout = (write "\n" s').machine.output.bytes) := by
  induction fuel generalizing s j with
  | zero => cases h
  | succ fuel ih =>
    have hprompt : ∀ deeds s' n, (Deed.prompt.outcome n s).map Prod.snd = some s' →
        Session.performAll ((n, .prompt) :: deeds) s = s'.performAll deeds := by
      intro deeds s' n hs'
      obtain ⟨outcome, houtcome, rfl⟩ := Option.map_eq_some_iff.mp hs'
      rw [Session.performAll, houtcome]
    rw [promptLoop_succ] at h
    unfold Deed.outcome at hprompt
    generalize promptedLine s = prompted at h hprompt
    obtain ⟨line, s₁⟩ := prompted
    cases line with
    | absent =>
      cases h
      exact ⟨[(0, .prompt)], s₁, by simp, hprompt [] s₁ 0 rfl, .inr rfl⟩
    | unreadable =>
      cases h
      exact ⟨[(0, .prompt)], s₁, by simp, hprompt [] s₁ 0 rfl, .inl rfl⟩
    | text source =>
      dsimp only [Step.take, Step.outcome] at h
      dsimp only at hprompt
      cases hrun : s₁.runLine fuel source with
      | none =>
        rw [hrun] at h
        cases h
      | some result =>
        rw [hrun] at h
        obtain ⟨deeds, s', hprompts, hperform, hout⟩ := ih h
        refine ⟨(fuel, .prompt) :: deeds, s', List.forall_mem_cons.mpr ⟨rfl, hprompts⟩, ?_, hout⟩
        rw [hprompt deeds result.2 fuel (by rw [hrun]; rfl)]
        exact hperform

namespace Chronicle

/-- How an expression is evaluated, whose value may be written, with the history. -/
def evaluator (fuel : Nat) (written : Bool) (e : Expr) : Traced Value :=
  if written then traceExpression fuel e else (Task.expression e).trace fuel .top

/-- Runs a tree, with the distances found for its names or without. -/
def attempt {α : Type} (resolution : Option Resolution) (root : Root) (x : Traced α)
    (c : Chronicle) : Outcome :=
  match x (match resolution with
    | some r => c.run.begin r.table root
    | none => c.run) with
  | .ok _ r => (some [], ⟨r, c.nextSite⟩)
  | .error (.fault e) r => (some [.runtime e], ⟨r, c.nextSite⟩)
  | .error .outOfFuel r => (none, ⟨r, c.nextSite⟩)

/-- The chronicle after a prompt was written and a line read. -/
def prompted (c : Chronicle) : Chronicle :=
  { c with run.machine := (Command.promptedLine c.session).2.machine }

/-- What a deed does to a chronicle. -/
def perform (fuel : Nat) (c : Chronicle) : Deed → Outcome
  | .take step => c.take fuel step
  | .runLeniently resolved source =>
    let parsed := Program.parse (scanTokens source) c.nextSite
    let c := { c with nextSite := parsed.nextSite }
    c.attempt (if resolved then some (.ofProgram parsed.tree) else none) (.program parsed.tree)
      (traceProgram fuel parsed.tree)
  | .evaluateLeniently written resolved source =>
    let parsed := Expr.parse (scanTokens source) c.nextSite
    let c := { c with nextSite := parsed.nextSite }
    match parsed.tree with
    | some e =>
      c.attempt (if resolved then some (.ofExpr e) else none) (.expression e)
        (some <$> evaluator fuel written e)
    | none => (some [], c)
  | .prompt =>
    match (Command.promptedLine c.session).1 with
    | .text source => c.prompted.take fuel (.line source)
    | _ => (some [], c.prompted)

/-- The chronicle after deeds in order. A deed that runs out of fuel is broken off there. -/
def performAll : Deeds → Chronicle → Chronicle
  | [], c => c
  | (fuel, deed) :: deeds, c => performAll deeds (c.perform fuel deed).2

/-! ## Sessions do not depend on their history -/

theorem evaluator_erases (fuel : Nat) (written : Bool) (e : Expr) :
    Erases (evaluator fuel written e) (Deed.evaluator fuel written e) := by
  cases written with
  | true => exact traceExpression_erases fuel e
  | false => exact Task.trace_erases fuel (.expression e) .top

theorem attempt_forget {α : Type} (resolution : Option Resolution) (root : Root) {x : Traced α}
    {y : Exec α} (h : Erases x y) (c : Chronicle) :
    (c.attempt resolution root x).forget =
      Session.Attempt.outcome (c.session.attemptWith resolution y) := by
  have hrun : ∀ r : Run, Outcome.forget (match x r with
      | .ok _ r' => (some [], (⟨r', c.nextSite⟩ : Chronicle))
      | .error (.fault e) r' => (some [.runtime e], ⟨r', c.nextSite⟩)
      | .error .outOfFuel r' => (none, ⟨r', c.nextSite⟩)) =
        Session.Attempt.outcome (Session.attempt y ⟨r.machine, c.nextSite⟩) := by
    intro r
    have hr := h r
    unfold Session.attempt
    dsimp only
    cases hx : x r with
    | ok a r' =>
      rw [hx] at hr
      rw [show y r.machine = .ok a r'.machine from hr]
      rfl
    | error e r' =>
      rw [hx] at hr
      rw [show y r.machine = .error e r'.machine from hr]
      cases e <;> rfl
  cases resolution with
  | some r => exact hrun (c.run.begin r.table root)
  | none => exact hrun c.run

theorem prompted_session (c : Chronicle) :
    c.prompted.session = (Command.promptedLine c.session).2 :=
  rfl

/-- A deed does the same to a session with its history as without. -/
theorem perform_forget (fuel : Nat) (deed : Deed) (c : Chronicle) :
    (c.perform fuel deed).forget = deed.outcome fuel c.session := by
  cases deed with
  | take step => exact take_forget fuel step c
  | runLeniently resolved source =>
    exact attempt_forget _ _ (traceProgram_erases fuel _)
      ⟨c.run, (Program.parse (scanTokens source) c.nextSite).nextSite⟩
  | evaluateLeniently written resolved source =>
    unfold perform Deed.outcome Session.evaluateLenient session
    dsimp only
    obtain ⟨_ | e, errors, nextSite⟩ := Expr.parse (scanTokens source) c.nextSite
    · rfl
    · have hsome : Erases (some <$> evaluator fuel written e)
          (some <$> Deed.evaluator fuel written e) :=
        (evaluator_erases fuel written e).bind fun _ _ => rfl
      exact attempt_forget _ _ hsome ⟨c.run, nextSite⟩
  | prompt =>
    unfold perform Deed.outcome
    have hsession := c.prompted_session
    generalize hline : Command.promptedLine c.session = line at hsession ⊢
    obtain ⟨_ | source | _, s⟩ := line
    · exact congrArg (fun s => some ([], s)) hsession
    · have htake := take_forget fuel (.line source) c.prompted
      rw [hsession] at htake
      exact htake
    · exact congrArg (fun s => some ([], s)) hsession

/-- Deeds in order lead a session where they lead its chronicle, for as long as there is fuel. -/
theorem performAll_forget {deeds : Deeds} {c : Chronicle} {s : Session}
    (h : c.session.performAll deeds = some s) : (performAll deeds c).session = s := by
  induction deeds generalizing c with
  | nil =>
    cases h
    rfl
  | cons d deeds ih =>
    obtain ⟨fuel, deed⟩ := d
    unfold Session.performAll at h
    rw [← perform_forget] at h
    unfold performAll
    generalize c.perform fuel deed = outcome at h ⊢
    obtain ⟨_ | errors, c'⟩ := outcome
    · cases h
    · exact ih h

end Chronicle

end Lox
