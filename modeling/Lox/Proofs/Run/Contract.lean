import Lox.Proofs.Run.Trace

/-!
# Contracts

A contract says of every task what must hold where it starts and what then holds where it ends, and
what any stretch of a run keeps. `Contract.run_task` proves a contract of all runs from what it asks
of single layers, where the tasks that a layer starts may be taken to honour it. The induction is on
the fuel, so the contract also covers runs that fail and runs cut short for want of fuel.
-/

namespace Lox.Eval

/-- What tasks ask for and give. A view is what a proof knows about a task beyond its run. -/
structure Contract where
  View : Type
  /-- Holds between two states of a run that goes on. -/
  kept : Run → Run → Prop
  /-- Holds between a state of a run and the state in which it stopped. -/
  halted : Run → Run → Prop
  pre : View → Task → Surroundings → Run → Prop
  post : View → (t : Task) → Surroundings → Run → t.Result → Run → Prop

/-- What a contract needs to hold of stretches of runs. -/
structure Contract.Lawful (c : Contract) : Prop where
  trans : ∀ {r s t : Run}, c.kept r s → c.kept s t → c.kept r t
  halt : ∀ {r s t : Run}, c.kept r s → c.halted s t → c.halted r t
  begin_kept : ∀ {v : c.View} {t : Task} {around : Surroundings} {r : Run},
    c.pre v t around r → c.kept r r
  begin_halted : ∀ {v : c.View} {t : Task} {around : Surroundings} {r : Run},
    c.pre v t around r → c.halted r r

/-- The layer honours the contract from the state on, and it ends with `Q`, provided that the tasks
it starts honour the contract. -/
def Layer.Meets (c : Contract) (around : Surroundings) {α : Type} :
    Layer α → (α → Run → Prop) → Run → Prop
  | .done a, Q, r => Q a r
  | .step x mark next, Q, r =>
    match observe around mark x r with
    | .ok b r' => c.kept r r' ∧ (next b).Meets c around Q r'
    | .error _ r' => c.halted r r'
  | .start t next, Q, r =>
    ∃ v, c.pre v t around r ∧
      ∀ a r', c.kept r r' → c.post v t around r a r' → (next a).Meets c around Q r'
  | .enter frame f t next, Q, r =>
    ∃ v, c.pre v t (around.enter frame f r.history.origins) (r.atFrame frame) ∧
      (∀ a r', c.kept (r.atFrame frame) r' →
        c.post v t (around.enter frame f r.history.origins) (r.atFrame frame) a r' →
        c.kept r (r'.atFrame r.machine.current) ∧
          (next a).Meets c around Q (r'.atFrame r.machine.current)) ∧
      ∀ r', c.halted (r.atFrame frame) r' → c.halted r (r'.atFrame r.machine.current)

/-- The outcome of a run honours what a contract says of runs, and ends with `Q` if it ends. -/
def Contract.Outcome (c : Contract) {α : Type} (r : Run) (Q : α → Run → Prop) :
    EStateM.Result Halt Run α → Prop
  | .ok a r' => c.kept r r' ∧ Q a r'
  | .error _ r' => c.halted r r'

/-- Every layer honours the contract. When a task ends, the end is recorded. -/
def Contract.Layered (c : Contract) : Prop :=
  ∀ v t around r, c.pre v t around r →
    t.layer.Meets c (around.inside t)
      (fun a r' =>
        c.kept r' (r'.record around (.ends t a)) ∧
          c.post v t around r a (r'.record around (.ends t a))) r

namespace Contract

variable {c : Contract}

theorem Outcome.bind {α β : Type} {r s : Run} {x : Traced α} {f : α → Traced β}
    {P : α → Run → Prop} {Q : β → Run → Prop} (hx : c.Outcome r P (x s))
    (hf : ∀ a r', c.kept r r' → P a r' → c.Outcome r Q (f a r')) :
    c.Outcome r Q ((x >>= f) s) := by
  show c.Outcome r Q (EStateM.bind x f s)
  unfold EStateM.bind
  cases hxs : x s with
  | ok a r' =>
    rw [hxs] at hx
    exact hf a r' hx.1 hx.2
  | error e r' =>
    rw [hxs] at hx
    exact hx

theorem Outcome.mono {α : Type} {r : Run} {P Q : α → Run → Prop}
    {result : EStateM.Result Halt Run α} (h : c.Outcome r P result)
    (hmono : ∀ a r', c.kept r r' → P a r' → Q a r') : c.Outcome r Q result := by
  cases result with
  | ok a r' => exact ⟨h.1, hmono a r' h.1 h.2⟩
  | error e r' => exact h

/-- What holds from a later state on holds from the earlier one on. -/
theorem Outcome.of_kept (hc : c.Lawful) {α : Type} {r s : Run} {Q : α → Run → Prop}
    {result : EStateM.Result Halt Run α} (hkept : c.kept r s) (h : c.Outcome s Q result) :
    c.Outcome r Q result := by
  cases result with
  | ok a r' => exact ⟨hc.trans hkept h.1, h.2⟩
  | error e r' => exact hc.halt hkept h

/-- What all runs have that the contract allows, the run has in the end. -/
theorem Outcome.ends {α : Type} {r : Run} {Q : α → Run → Prop} {P : Run → Prop}
    {result : EStateM.Result Halt Run α} (h : c.Outcome r Q result)
    (hkept : ∀ r', c.kept r r' → P r') (hhalted : ∀ r', c.halted r r' → P r') :
    P (endOf result) := by
  cases result with
  | ok a r' => exact hkept r' h.1
  | error e r' => exact hhalted r' h

/-- A layer run with tasks that honour the contract. -/
theorem run_layer (hc : c.Lawful) {sub : (t : Task) → Surroundings → Traced t.Result}
    (hsub : ∀ v t around r, c.pre v t around r →
      c.Outcome r (c.post v t around r) (sub t around r))
    (around : Surroundings) {α : Type} (l : Layer α) (Q : α → Run → Prop) {r s : Run}
    (hkept : c.kept r s) (h : l.Meets c around Q s) :
    c.Outcome r Q (l.trace sub around s) := by
  -- on the layer: `Meets` says of each node what the contract asks of the rest behind it
  induction l generalizing s with
  | done a => exact ⟨hkept, h⟩
  | step x mark next ih =>
    have hstep : c.Outcome s (fun b r' => (next b).Meets c around Q r')
        (observe around mark x s) := by
      unfold Layer.Meets at h
      cases hx : observe around mark x s with
      | ok b r' =>
        rw [hx] at h
        exact h
      | error e r' =>
        rw [hx] at h
        exact h
    exact (hstep.of_kept hc hkept).bind fun b _ hb hnext => ih b hb hnext
  | start t next ih =>
    obtain ⟨v, hpre, hnext⟩ := h
    have htask := (hsub v t around s hpre).mono hnext
    exact (htask.of_kept hc hkept).bind fun a _ ha hmeets => ih a ha hmeets
  | enter frame f t next ih =>
    obtain ⟨v, hpre, hok, herror⟩ := h
    have htask : c.Outcome s (fun a r' => (next a).Meets c around Q r')
        (withinFrame frame (sub t (around.enter frame f s.history.origins)) s) := by
      have hrun := hsub v t _ _ hpre
      unfold withinFrame
      cases hx : sub t (around.enter frame f s.history.origins) (s.atFrame frame) with
      | ok a r' =>
        rw [hx] at hrun
        exact hok a r' hrun.1 hrun.2
      | error e r' =>
        rw [hx] at hrun
        exact herror r' hrun
    exact (htask.of_kept hc hkept).bind fun a _ ha hmeets => ih a ha hmeets

/-- A contract that every layer honours is honoured by every run, also by those that fail and
those that run out of fuel. -/
theorem run_task (hc : c.Lawful) (hlayers : c.Layered) (fuel : Nat) (v : c.View) (t : Task)
    (around : Surroundings) (r : Run) (hpre : c.pre v t around r) :
    c.Outcome r (c.post v t around r) (t.trace fuel around r) := by
  induction fuel generalizing v t around r with
  | zero => exact hc.begin_halted hpre
  | succ fuel ih =>
    refine Outcome.bind (run_layer hc ih (around.inside t) t.layer _ (hc.begin_kept hpre)
      (hlayers v t around r hpre)) ?_
    intro a r' hkept hend
    exact ⟨hc.trans hkept hend.1, hend.2⟩

end Contract

end Lox.Eval
