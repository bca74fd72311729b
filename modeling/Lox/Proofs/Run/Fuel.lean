import Lox.Proofs.Run.Chronicle

/-!
# More fuel

Fuel only bounds how long a run goes on. A computation that ended with some fuel ends with more of
it in the same way, from the same moments to the same machine (`Task.trace_more`), and so does a
whole session (`Chronicle.takeAll_more`). So two runs that both end may be taken to have had the
same fuel.
-/

namespace Lox

namespace Eval

/-- The second computation does the same as the first one, wherever that does not run out of
fuel. -/
def Outlasts {α : Type} (x y : Traced α) : Prop :=
  ∀ r, (∃ r', x r = .error .outOfFuel r') ∨ y r = x r

namespace Outlasts

variable {α β : Type} {x y : Traced α} {f g : α → Traced β}

theorem refl (x : Traced α) : Outlasts x x :=
  fun _ => .inr rfl

/-- The part that runs out of fuel first is the same in both. -/
theorem bind (hx : Outlasts x y) (hf : ∀ a, Outlasts (f a) (g a)) :
    Outlasts (x >>= f) (y >>= g) := by
  intro r
  show (∃ r', EStateM.bind x f r = .error .outOfFuel r') ∨ EStateM.bind y g r = EStateM.bind x f r
  unfold EStateM.bind
  rcases hx r with ⟨r', hout⟩ | hsame
  · rw [hout]
    exact .inl ⟨r', rfl⟩
  rw [hsame]
  cases x r with
  | ok a r₁ => exact hf a r₁
  | error e r₁ => exact .inr rfl

/-- More fuel helps inside a frame as well. -/
theorem withinFrame (frame : FrameId) (hx : Outlasts x y) :
    Outlasts (withinFrame frame x) (withinFrame frame y) := by
  intro r
  unfold Eval.withinFrame
  rcases hx (r.atFrame frame) with ⟨r', hout⟩ | hsame
  · rw [hout]
    exact .inl ⟨_, rfl⟩
  · rw [hsame]
    exact .inr rfl

end Outlasts

/-- A layer does the same with more fuel for its tasks. -/
theorem Layer.trace_more {α : Type} {sub sub' : (t : Task) → Surroundings → Traced t.Result}
    (hsub : ∀ t around, Outlasts (sub t around) (sub' t around)) (around : Surroundings)
    (l : Layer α) : Outlasts (l.trace sub around) (l.trace sub' around) := by
  induction l with
  | done a => exact .refl _
  | step x mark next ih => exact (Outlasts.refl _).bind ih
  | start t next ih => exact (hsub t around).bind ih
  | enter frame f t next ih =>
    refine Outlasts.bind (fun r => ?_) ih
    exact (hsub t (around.enter frame f r.history.origins)).withinFrame frame r

/-- A task that ended ends in the same way with more fuel. -/
theorem Task.trace_more {fuel fuel' : Nat} (h : fuel ≤ fuel') (t : Task) (around : Surroundings) :
    Outlasts (t.trace fuel around) (t.trace fuel' around) := by
  induction fuel generalizing fuel' t around with
  | zero => exact fun r => .inl ⟨r, rfl⟩
  | succ fuel ih =>
    obtain ⟨more, rfl⟩ := Nat.exists_eq_add_of_le' h
    exact (Layer.trace_more (fun t around => ih (Nat.le_add_left fuel more) t around)
      (around.inside t) t.layer).bind fun _ => .refl _

variable {fuel fuel' : Nat} (hfuel : fuel ≤ fuel')

include hfuel

/-- A program does the same with more fuel. -/
theorem traceProgram_more (ss : List Stmt) :
    Outlasts (traceProgram fuel ss) (traceProgram fuel' ss) := by
  induction ss with
  | nil => exact .refl _
  | cons s ss ih => exact (Task.trace_more hfuel (.statement s) .top).bind fun _ => ih

/-- An expression does the same with more fuel. -/
theorem traceExpression_more (e : Expr) :
    Outlasts (traceExpression fuel e) (traceExpression fuel' e) :=
  (Task.trace_more hfuel (.expression e) .top).bind fun _ => .refl _

end Eval

open Eval

/-! ## Whole sessions -/

namespace Chronicle

theorem runResolved_more {α : Type} (resolution : Resolution) (root : Root) {x y : Traced α}
    (h : Outlasts x y) (c : Chronicle) :
    (c.runResolved resolution root x).1 = none ∨
      c.runResolved resolution root y = c.runResolved resolution root x := by
  unfold runResolved
  cases resolution.errors with
  | cons error errors => exact .inr rfl
  | nil =>
    dsimp only
    rcases h (c.run.begin resolution.table root) with ⟨r', hout⟩ | hsame
    · rw [hout]
      exact .inl rfl
    · rw [hsame]
      exact .inr rfl

variable {fuel fuel' : Nat} (hfuel : fuel ≤ fuel')

include hfuel

/-- A session runs a text to the same end with more fuel. -/
theorem runTokens_more (tokens : List Token) (c : Chronicle) :
    (c.runTokens fuel tokens).1 = none ∨ c.runTokens fuel' tokens = c.runTokens fuel tokens := by
  unfold runTokens
  obtain ⟨tree, errors, nextSite⟩ := Program.parse tokens c.nextSite
  cases errors with
  | nil => exact runResolved_more _ _ (traceProgram_more hfuel tree) ⟨c.run, nextSite⟩
  | cons error errors => exact .inr rfl

/-- A session evaluates a text to the same end with more fuel. -/
theorem evaluateTokens_more (tokens : List Token) (c : Chronicle) :
    (c.evaluateTokens fuel tokens).1 = none ∨
      c.evaluateTokens fuel' tokens = c.evaluateTokens fuel tokens := by
  unfold evaluateTokens
  obtain ⟨_ | e, errors, nextSite⟩ := Expr.parse tokens c.nextSite
  · exact .inr rfl
  cases errors with
  | nil => exact runResolved_more _ _ (traceExpression_more hfuel e) ⟨c.run, nextSite⟩
  | cons error errors => exact .inr rfl

/-- A session runs a line to the same end with more fuel. -/
theorem runLineTokens_more (tokens : List Token) (c : Chronicle) :
    (c.runLineTokens fuel tokens).1 = none ∨
      c.runLineTokens fuel' tokens = c.runLineTokens fuel tokens := by
  unfold runLineTokens
  obtain ⟨statements, expression⟩ := Session.splitStatements tokens
  dsimp only
  by_cases hshort : expression.length ≤ 1
  · rw [if_pos hshort, if_pos hshort]
    exact runTokens_more hfuel tokens c
  rw [if_neg hshort, if_neg hshort]
  cases statements.getLast? with
  | none => exact evaluateTokens_more hfuel tokens c
  | some last =>
    dsimp only
    rcases runTokens_more hfuel (statements ++ [.endOf last.line]) c with hout | hsame
    · generalize c.runTokens fuel (statements ++ [.endOf last.line]) = outcome at hout
      obtain ⟨_, c'⟩ := outcome
      subst hout
      exact .inl rfl
    rw [hsame]
    generalize c.runTokens fuel (statements ++ [.endOf last.line]) = outcome
    obtain ⟨_ | _ | _, c'⟩ := outcome
    · exact .inr rfl
    · exact evaluateTokens_more hfuel expression c'
    · exact .inr rfl

omit hfuel in
theorem scanned_more (source : String) {next next' : List Token → Chronicle → Outcome}
    (h : ∀ tokens c, (next tokens c).1 = none ∨ next' tokens c = next tokens c) (c : Chronicle) :
    (c.scanned source next).1 = none ∨ c.scanned source next' = c.scanned source next := by
  unfold scanned
  cases scanErrors source with
  | nil => exact h _ c
  | cons error errors => exact .inr rfl

/-- A step that ended ends in the same way with more fuel. -/
theorem take_more (step : Step) (c : Chronicle) :
    (c.take fuel step).1 = none ∨ c.take fuel' step = c.take fuel step := by
  cases step with
  | run source => exact scanned_more source (runTokens_more hfuel) c
  | line source => exact scanned_more source (runLineTokens_more hfuel) c
  | evaluate source => exact scanned_more source (evaluateTokens_more hfuel) c
  | reset => exact .inr rfl

/-- Steps that were all taken lead with more fuel to the same session, through the same moments. -/
theorem takeAll_more {ρ : Type} [Reporter ρ] {steps : List Step} {c : Chronicle} {r r' : ρ}
    {s : Session} (h : Step.takeAll fuel steps c.session r = some (s, r')) :
    Step.takeAll fuel' steps c.session r = some (s, r') ∧
      takeAll fuel' steps c = takeAll fuel steps c := by
  induction steps generalizing c r with
  | nil => exact ⟨h, rfl⟩
  | cons step steps ih =>
    unfold Step.takeAll Step.take at h ⊢
    rw [← take_forget] at h ⊢
    unfold takeAll
    rcases take_more hfuel step c with hout | hsame
    · generalize c.take fuel step = outcome at hout h
      obtain ⟨_, c'⟩ := outcome
      subst hout
      cases h
    rw [hsame]
    generalize c.take fuel step = outcome at h ⊢
    obtain ⟨_ | errors, c'⟩ := outcome
    · cases h
    · exact ih h

end Chronicle

end Lox
