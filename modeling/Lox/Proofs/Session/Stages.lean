import Lox.Session

/-!
# Stages gate each other, and reporters only listen

A step of a session meets errors of one stage only, and a text that is not fit to be run leaves the
machine alone. Sessions do not depend on the reporter: whatever steps are taken, a journal and a
collection are told the same, remember the same since the last reset and call for the same exit
status (`stages_gate`).
-/

namespace Lox

/-! ## Errors of one stage -/

/-- All errors come from one stage, and a runtime error comes alone. -/
inductive OneStage : List Diagnostic → Prop
  | lexical (es : List LexicalError) : OneStage (es.map .lexical)
  | syntactic (es : List SyntaxError) : OneStage (es.map .syntactic)
  | scope (es : List ScopeError) : OneStage (es.map .scope)
  | runtime (e : RuntimeError) : OneStage [.runtime e]

/-- Did an error keep a text from being run? -/
def anyStatic (errors : List Diagnostic) : Bool :=
  errors.any fun d => !d.isRuntime

/-- Is there a runtime error? -/
def anyRuntime (errors : List Diagnostic) : Bool :=
  errors.any Diagnostic.isRuntime

theorem anyStatic_concat (errors : List Diagnostic) (d : Diagnostic) :
    anyStatic (errors ++ [d]) = (anyStatic errors || !d.isRuntime) := by
  simp [anyStatic]

theorem anyRuntime_concat (errors : List Diagnostic) (d : Diagnostic) :
    anyRuntime (errors ++ [d]) = (anyRuntime errors || d.isRuntime) := by
  simp [anyRuntime]

/-- The exit status that errors call for. -/
def statusOf (errors : List Diagnostic) : Nat :=
  if anyStatic errors then 65 else if anyRuntime errors then 70 else 0

namespace Session

/-- What is done to a session meets errors of one stage; and where they keep a text from being run,
the machine stays as it was, however much fuel there is. -/
def Gated (next : Nat → Session → Outcome) : Prop :=
  ∀ fuel s errors s', next fuel s = some (errors, s') →
    OneStage errors ∧ (anyStatic errors = true →
      s'.machine = s.machine ∧ ∀ fuel', next fuel' s = some (errors, s'))

theorem runResolved_gated {α : Type} (resolution : Resolution) (x : Nat → Exec α) :
    Gated fun fuel s => s.runResolved resolution (x fuel) := by
  intro fuel s errors s' h
  unfold runResolved at h ⊢
  cases herrors : resolution.errors with
  | nil =>
    rw [herrors] at h
    dsimp only at h
    cases hrun : (s.learn resolution.table).attempt (x fuel) with
    | none =>
      rw [hrun] at h
      cases h
    | some result =>
      obtain ⟨result, after⟩ := result
      rw [hrun] at h
      cases result with
      | ok a =>
        cases h
        exact ⟨.lexical [], fun hstatic => by cases hstatic⟩
      | error e =>
        cases h
        exact ⟨.runtime e, fun hstatic => by cases hstatic⟩
  | cons e es =>
    rw [herrors] at h
    cases h
    exact ⟨.scope (e :: es), fun _ => ⟨rfl, fun _ => rfl⟩⟩

theorem runTokens_gated (tokens : List Token) : Gated fun fuel s => s.runTokens fuel tokens := by
  intro fuel s errors s' h
  have hrun := runResolved_gated (.ofProgram (Program.parse tokens s.nextSite).tree)
    (fun fuel => Eval.interpret fuel (Program.parse tokens s.nextSite).tree) fuel
    { s with nextSite := (Program.parse tokens s.nextSite).nextSite } errors s'
  unfold runTokens at h ⊢
  dsimp only at h ⊢
  cases herrors : (Program.parse tokens s.nextSite).errors with
  | nil =>
    rw [herrors] at h
    exact hrun h
  | cons e es =>
    rw [herrors] at h
    cases h
    exact ⟨.syntactic (e :: es), fun _ => ⟨rfl, fun _ => rfl⟩⟩

theorem evaluateTokens_gated (tokens : List Token) :
    Gated fun fuel s => s.evaluateTokens fuel tokens := by
  intro fuel s errors s' h
  unfold evaluateTokens at h ⊢
  dsimp only at h ⊢
  cases htree : (Expr.parse tokens s.nextSite).tree with
  | none =>
    rw [htree] at h
    cases h
    exact ⟨.syntactic _, fun _ => ⟨rfl, fun _ => rfl⟩⟩
  | some e =>
    cases herrors : (Expr.parse tokens s.nextSite).errors with
    | nil =>
      rw [htree, herrors] at h
      exact
        runResolved_gated (.ofExpr e) (fun fuel => Eval.interpretExpression fuel e) fuel _ errors
        s' h
    | cons e' es =>
      rw [htree, herrors] at h
      cases h
      exact ⟨.syntactic (e' :: es), fun _ => ⟨rfl, fun _ => rfl⟩⟩

theorem scanned_gated {next : Nat → List Token → Session → Outcome} (source : String)
    (hnext : ∀ tokens, Gated fun fuel => next fuel tokens) :
    Gated fun fuel s => s.scanned source (next fuel) := by
  intro fuel s errors s' h
  unfold scanned at h ⊢
  cases herrors : scanErrors source with
  | nil =>
    rw [herrors] at h
    exact hnext (scanTokens source) fuel s errors s' h
  | cons e es =>
    rw [herrors] at h
    cases h
    exact ⟨.lexical (e :: es), fun _ => ⟨rfl, fun _ => rfl⟩⟩

theorem runLineTokens_oneStage {fuel : Nat} {tokens : List Token} {s s' : Session}
    {errors : List Diagnostic} (h : s.runLineTokens fuel tokens = some (errors, s')) :
    OneStage errors := by
  unfold runLineTokens at h
  dsimp only at h
  by_cases hlast : (splitStatements tokens).2.length ≤ 1
  · rw [if_pos hlast] at h
    exact (runTokens_gated tokens fuel s errors s' h).1
  · rw [if_neg hlast] at h
    cases hstatements : (splitStatements tokens).1.getLast? with
    | none =>
      rw [hstatements] at h
      exact (evaluateTokens_gated tokens fuel s errors s' h).1
    | some last =>
      rw [hstatements] at h
      dsimp only at h
      cases hrun : s.runTokens fuel ((splitStatements tokens).1 ++ [.endOf last.line]) with
      | none =>
        rw [hrun] at h
        cases h
      | some result =>
        obtain ⟨found, middle⟩ := result
        rw [hrun] at h
        cases found with
        -- the rest of the line is evaluated only if the statements before it were run to their end
        | nil => exact (evaluateTokens_gated _ fuel middle errors s' h).1
        | cons d ds =>
          cases h
          exact (runTokens_gated _ fuel s _ _ hrun).1

end Session

theorem Step.outcome_oneStage {fuel : Nat} {s s' : Session} {step : Step}
    {errors : List Diagnostic} (h : step.outcome fuel s = some (errors, s')) : OneStage errors := by
  cases step with
  | run source => exact (Session.scanned_gated source Session.runTokens_gated fuel s errors s' h).1
  | evaluate source =>
    exact (Session.scanned_gated source Session.evaluateTokens_gated fuel s errors s' h).1
  | reset =>
    cases h
    exact .lexical []
  | line source =>
    unfold Step.outcome Session.runLine Session.scanned at h
    dsimp only at h
    cases herrors : scanErrors source with
    | nil =>
      rw [herrors] at h
      exact Session.runLineTokens_oneStage h
    | cons e es =>
      rw [herrors] at h
      cases h
      exact .lexical (e :: es)

/-! ## Reporters -/

/-- All errors since the last reset, in their order. -/
structure Record where
  errors : List Diagnostic

instance : Reporter Record where
  report d record := ⟨record.errors ++ [d]⟩
  hadError record := anyStatic record.errors
  hadRuntimeError record := anyRuntime record.errors
  reset _ := ⟨[]⟩

namespace Reporter

variable {ρ : Type} [Reporter ρ]

/-- The reporter remembers what kinds of errors are in the record. -/
structure Remembers (r : ρ) (record : Record) : Prop where
  error : hadError r = anyStatic record.errors
  runtimeError : hadRuntimeError r = anyRuntime record.errors

/-- Whatever the reporter remembers, it remembers what it is told, until it is reset. -/
structure Faithful (ρ : Type) [Reporter ρ] : Prop where
  report : ∀ (r : ρ) record d, Remembers r record → Remembers (report d r) (report d record)
  reset : ∀ (r : ρ) record, Remembers (reset r) (reset record)

/-- A reporter is faithful if every diagnostic adds what it is to what is remembered. -/
theorem Faithful.of_adds (herror : ∀ (r : ρ) d, hadError (Reporter.report d r) =
      (hadError r || !d.isRuntime))
    (hruntime : ∀ (r : ρ) d, hadRuntimeError (Reporter.report d r) =
      (hadRuntimeError r || d.isRuntime))
    (hreset : ∀ r : ρ, hadError (Reporter.reset r) = false ∧
      hadRuntimeError (Reporter.reset r) = false) : Faithful ρ where
  report r record d h := by
    refine ⟨?_, ?_⟩
    · rw [herror, h.error]
      exact (anyStatic_concat record.errors d).symm
    · rw [hruntime, h.runtimeError]
      exact (anyRuntime_concat record.errors d).symm
  reset r record := ⟨(hreset r).1, (hreset r).2⟩

theorem journal_faithful : Faithful Journal :=
  .of_adds (fun _ _ => rfl) (fun _ _ => rfl) fun _ => ⟨rfl, rfl⟩

theorem collection_faithful : Faithful Collection := by
  refine .of_adds (fun c d => ?_) (fun c d => ?_) fun _ => ⟨rfl, rfl⟩
  · show (c.report d).hadError = (c.hadError || !d.isRuntime)
    cases d <;>
      simp [Collection.report, Collection.hadError, Diagnostic.isRuntime, Diagnostic.stage]
  · show (c.report d).hadRuntimeError = (c.hadRuntimeError || d.isRuntime)
    cases d <;>
      simp [Collection.report, Collection.hadRuntimeError, Diagnostic.isRuntime, Diagnostic.stage]

variable {r : ρ} {record : Record}

theorem Remembers.status (h : Remembers r record) : Reporter.status r = statusOf record.errors := by
  unfold Reporter.status statusOf
  rw [h.error, h.runtimeError]

theorem Remembers.reportAll (hρ : Faithful ρ) (h : Remembers r record) (errors : List Diagnostic) :
    Remembers (Reporter.reportAll errors r) (Reporter.reportAll errors record) := by
  induction errors generalizing r record with
  | nil => exact h
  | cons d errors ih => exact ih (hρ.report r record d h)

theorem Remembers.tell (hρ : Faithful ρ) (h : Remembers r record) (errors : List Diagnostic)
    (step : Step) : Remembers (step.tell errors r) (step.tell errors record) := by
  cases step with
  | reset => exact hρ.reset r record
  | run | line | evaluate => exact h.reportAll hρ errors

/-- Steps do the same to a session whether a reporter or a record listens, and what the reporter
remembers at the end is in the record. -/
theorem takeAll_remembers (hρ : Faithful ρ) (fuel : Nat) (steps : List Step) (s : Session)
    (h : Remembers r record) :
    Option.Rel (fun (result : Session × ρ) (result' : Session × Record) =>
        result.1 = result'.1 ∧ Remembers result.2 result'.2)
      (Step.takeAll fuel steps s r) (Step.takeAll fuel steps s record) := by
  induction steps generalizing s r record with
  | nil => exact .some ⟨rfl, h⟩
  | cons step steps ih =>
    rw [Step.takeAll, Step.takeAll, Step.take, Step.take]
    cases step.outcome fuel s with
    | none => exact .none
    | some result =>
      obtain ⟨errors, after⟩ := result
      exact ih after (h.tell hρ errors step)

end Reporter

/-! ## Stages and reporters -/

/-- A journal, a collection and a record listened to the same steps: the sessions are the same, both
reporters remember the same, and the record says what exit status both call for. -/
inductive Told : Option (Session × Journal) → Option (Session × Collection) →
    Option (Session × Record) → Prop
  | outOfFuel : Told none none none
  | done {s : Session} {j : Journal} {c : Collection} {record : Record} (hagrees : j.Agrees c)
      (hjournal : Reporter.status j = statusOf record.errors)
      (hcollection : Reporter.status c = statusOf record.errors) :
      Told (some (s, j)) (some (s, c)) (some (s, record))

open Reporter

/-- The errors of a step come from one stage. Where they keep a text from being run as a program or
evaluated, the machine stays as it was, however much fuel there is. After every step of a script
that a journal and a collection listen to, the sessions are equal and both reporters agree, and the
exit status is that of the errors since the last reset. -/
theorem stages_gate (fuel : Nat) :
    (∀ s s' (step : Step) errors, step.outcome fuel s = some (errors, s') → OneStage errors) ∧
      (∀ (s s' : Session) source errors, anyStatic errors = true →
        (s.run fuel source = some (errors, s') →
          s'.machine = s.machine ∧ ∀ fuel', s.run fuel' source = some (errors, s')) ∧
        (s.evaluate fuel source = some (errors, s') →
          s'.machine = s.machine ∧ ∀ fuel', s.evaluate fuel' source = some (errors, s'))) ∧
      ∀ s (j : Journal) (c : Collection) (record : Record), Remembers j record →
        Remembers c record → ∀ (steps : List Step) n, Told (Step.takeAll fuel (steps.take n) s j)
          (Step.takeAll fuel (steps.take n) s c) (Step.takeAll fuel (steps.take n) s record) := by
  refine ⟨fun s s' step errors h => Step.outcome_oneStage h, fun s s' source errors hstatic => ?_,
    fun s j c record hj hc steps n => ?_⟩
  · exact ⟨fun h => (Session.scanned_gated source Session.runTokens_gated fuel s errors s' h).2
        hstatic,
      fun h => (Session.scanned_gated source Session.evaluateTokens_gated fuel s errors s' h).2
        hstatic⟩
  · have hjournal := takeAll_remembers journal_faithful fuel (steps.take n) s hj
    have hcollection := takeAll_remembers collection_faithful fuel (steps.take n) s hc
    -- each reporter is compared with the record, and so they are compared with each other
    generalize Step.takeAll fuel (steps.take n) s j = journaled at hjournal ⊢
    generalize Step.takeAll fuel (steps.take n) s c = collected at hcollection ⊢
    generalize Step.takeAll fuel (steps.take n) s record = recorded at hjournal hcollection ⊢
    cases hjournal with
    | none =>
      cases hcollection
      exact .outOfFuel
    | @some result result' hsame =>
      obtain ⟨after, j'⟩ := result
      obtain ⟨after', record'⟩ := result'
      obtain ⟨rfl, hj'⟩ := hsame
      cases hcollection with
      | @some collectedResult _ hsame' =>
        obtain ⟨after'', c'⟩ := collectedResult
        obtain ⟨rfl, hc'⟩ := hsame'
        exact .done ⟨hj'.error.trans hc'.error.symm, hj'.runtimeError.trans hc'.runtimeError.symm⟩
          hj'.status hc'.status

/-- A program with a `return` outside of functions writes nothing, and a script that meets a runtime
error, a reset and a syntax error behind a statement exits with 65. -/
theorem stages_gate_return_outside :
    ∃ errors s', (Session.start ⟨[]⟩ {} ⟨fun _ => 0, fun _ => 0, 0, 0⟩).run 14
        "print nil; return;" = some (errors, s') ∧ OneStage errors ∧ anyStatic errors = true ∧
      s'.machine = .start ⟨[]⟩ {} ⟨fun _ => 0, fun _ => 0, 0, 0⟩ ∧
      ∀ n, Told
        (Step.takeAll 14 ([.run "a;", .reset, .line "nil; ("].take n)
          (.start ⟨[]⟩ {} ⟨fun _ => 0, fun _ => 0, 0, 0⟩) Journal.empty)
        (Step.takeAll 14 ([.run "a;", .reset, .line "nil; ("].take n)
          (.start ⟨[]⟩ {} ⟨fun _ => 0, fun _ => 0, 0, 0⟩) Collection.empty)
        (Step.takeAll 14 ([.run "a;", .reset, .line "nil; ("].take n)
          (.start ⟨[]⟩ {} ⟨fun _ => 0, fun _ => 0, 0, 0⟩) (Record.mk [])) := by
  obtain ⟨hstage, hgate, hreporters⟩ := stages_gate 14
  have hsome : ((Session.start ⟨[]⟩ {} ⟨fun _ => 0, fun _ => 0, 0, 0⟩).run 14
      "print nil; return;").any (fun result => anyStatic result.1) = true := by decide +kernel
  obtain ⟨⟨errors, s'⟩, hrun, hstatic⟩ := (Option.any_eq_true _ _).mp hsome
  refine ⟨errors, s', hrun, hstage _ _ (.run "print nil; return;") _ hrun, hstatic,
    ((hgate _ _ _ _ hstatic).1 hrun).1, fun n => ?_⟩
  exact hreporters _ Journal.empty Collection.empty (Record.mk []) ⟨rfl, rfl⟩ ⟨rfl, rfl⟩
    [.run "a;", .reset, .line "nil; ("] n

end Lox
