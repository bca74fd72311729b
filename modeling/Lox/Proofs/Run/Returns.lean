import Lox.Proofs.Run.Log
import Lox.Proofs.Run.Sessions
import Lox.Proofs.Run.Starts

/-!
# Where control goes

A `break`, a `continue` or a `return` ends one statement after the other, each a part of the next,
until something takes it. Nothing comes between: the moments after a statement ended by returning
are the ends of the statements around it, up to the call of the function whose body they are in,
which then ends with the value (`Handed`). Statements of a program, loops and bodies of functions
let nothing else out, so control never leaves a program (`Chronicle.flows_end`).
-/

namespace Lox

/-- The value that a flow returns. -/
def Flow.returned? : Flow → Option Value
  | .returned v => some v
  | .normal | .breakLoop | .continueLoop => none

namespace Eval

/-! ## Parts of tasks -/

/-- The first task runs a part of the statements that the second one runs. -/
inductive Task.PartOf : Task → Task → Prop where
  | first {s : Stmt} {ss : List Stmt} : PartOf (.statement s) (.statements (s :: ss))
  | rest {s : Stmt} {ss : List Stmt} : PartOf (.statements ss) (.statements (s :: ss))
  | block {body : List Stmt} : PartOf (.statements body) (.statement (.block body))
  | whenTrue {condition : Expr} {s : Stmt} {whenFalse : Option Stmt} :
      PartOf (.statement s) (.statement (.conditional condition s whenFalse))
  | whenFalse {condition : Expr} {whenTrue s : Stmt} :
      PartOf (.statement s) (.statement (.conditional condition whenTrue (some s)))
  | loop {condition : Expr} {body : Stmt} {increment : Option Expr} :
      PartOf (.rounds condition body increment) (.statement (.loop condition body increment))
  | round {condition : Expr} {body : Stmt} {increment : Option Expr} :
      PartOf (.statement body) (.rounds condition body increment)
  | again {condition : Expr} {body : Stmt} {increment : Option Expr} :
      PartOf (.rounds condition body increment) (.rounds condition body increment)
  | body {f : Function} {arguments : List Value} :
      PartOf (.statements f.declaration.body) (.invoke f arguments)

/-- The value that a task returns if it runs statements and a `return` ended it. -/
def Task.returned? : (t : Task) → t.Result → Option Value
  | .statement _, flow | .statements _, flow | .rounds _ _ _, flow => flow.returned?
  | .clause _, _ | .expression _, _ | .optional _, _ | .expressions _, _ | .property _, _
  | .objectProperty _ _, _ | .call _ _ _, _ | .invoke _ _, _ => none

/-- At this moment the task ends, inside those after it, because a `return` gave the value. -/
structure Event.Returns (ev : Event) (t : Task) (outer : List Task) (v : Value) : Prop where
  tasks : ev.around.tasks = outer
  ends : ∃ result, ev.occurrence = .ends t result ∧ t.returned? result = some v

/-- At this moment the call of the function ends with the value. -/
structure Event.EndsCall (ev : Event) (f : Function) (arguments : List Value) (outer : List Task)
    (v : Value) : Prop where
  tasks : ev.around.tasks = outer
  ends : ev.occurrence = .ends (.invoke f arguments) v

/-- The value that a call gives whose body returned a value: an initializer gives its receiver. -/
def resultOf (f : Function) (v : Value) (s : Store) : Value :=
  if f.isInitializer then (s.getAt? f.closure 0 "this").getD .nil else v

/-- After the task `t` returned a value inside the tasks `outer`, the moments go on with the ends of
the tasks around it, each a part of the next and each with the value, and then with the end of the
innermost call, whose body they ran. -/
inductive Handed (v : Value) : (t : Task) → (outer : List Task) → List Event → Prop where
  | call {t : Task} {f : Function} {arguments : List Value} {outer : List Task}
      {result last : Event} {evs : List Event} (hpart : t.PartOf (.invoke f arguments))
      (hresult : ∃ halt m, result.occurrence = .step .nothing halt m)
      (hlast : last.EndsCall f arguments outer (resultOf f v result.machine.store)) :
      Handed v t (.invoke f arguments :: outer) (result :: last :: evs)
  | up {t parent : Task} {outer : List Task} {ev : Event} {evs : List Event}
      (hpart : t.PartOf parent) (hev : ev.Returns parent outer v) (h : Handed v parent outer evs) :
      Handed v t (parent :: outer) (ev :: evs)

/-- The moments are the ends of tasks around `t`, each a part of the next and each with the value,
up to the end of `t'`. -/
inductive Rises (v : Value) (t' : Task) (outer' : List Task) :
    (t : Task) → (outer : List Task) → List Event → Prop where
  | here : Rises v t' outer' t' outer' []
  | up {t parent : Task} {outer : List Task} {ev : Event} {evs : List Event}
      (hpart : t.PartOf parent) (hev : ev.Returns parent outer v)
      (h : Rises v t' outer' parent outer evs) :
      Rises v t' outer' t (parent :: outer) (ev :: evs)

variable {v : Value} {t t' parent : Task} {outer outer' : List Task} {evs evs' : List Event}

theorem Handed.append (h : Handed v t outer evs) (evs' : List Event) :
    Handed v t outer (evs ++ evs') := by
  induction h with
  | call hpart hresult hlast => exact .call hpart hresult hlast
  | up hpart hev _ ih => exact .up hpart hev ih

theorem Rises.handed (h : Rises v t' outer' t outer evs) (h' : Handed v t' outer' evs') :
    Handed v t outer (evs ++ evs') := by
  induction h with
  | here => exact h'
  | up hpart hev _ ih => exact .up hpart hev ih

theorem Rises.last {ev : Event} (h : Rises v t' (parent :: outer') t outer evs)
    (hpart : t'.PartOf parent) (hev : ev.Returns parent outer' v) :
    Rises v parent outer' t outer (evs ++ [ev]) := by
  induction h with
  | here => exact .up hpart hev .here
  | up hpart' hev' _ ih => exact .up hpart' hev' ih

/-! ## Moments at which something is returned -/

/-- Whatever is returned at these moments is handed to a call, unless it rises to the end of the
last task `t`, which then returns it. -/
def Accounted (t : Task) (outer : List Task) (returned : Option Value) (evs : List Event) : Prop :=
  ∀ before ev after t₀ outer₀ v, evs = before ++ ev :: after → ev.Returns t₀ outer₀ v →
    Handed v t₀ outer₀ after ∨ (returned = some v ∧ Rises v t outer t₀ outer₀ after)

variable {returned : Option Value}

theorem Accounted.nil : Accounted t outer returned [] := by
  intro before ev after t₀ outer₀ v heq
  simp at heq

/-- A moment at which nothing is returned. -/
theorem Accounted.cons {ev : Event} (h : Accounted t outer returned evs)
    (hev : ∀ t₀ outer₀ v, ¬ev.Returns t₀ outer₀ v) : Accounted t outer returned (ev :: evs) := by
  intro before ev' after t₀ outer₀ v heq hreturns
  cases before with
  | nil =>
    cases heq
    exact absurd hreturns (hev t₀ outer₀ v)
  | cons first before =>
    injection heq with _ heq
    exact h before ev' after t₀ outer₀ v heq hreturns

/-- Moments of a task that returned nothing, and then others. -/
theorem Accounted.append (h : Accounted t' outer' none evs)
    (h' : Accounted t outer returned evs') : Accounted t outer returned (evs ++ evs') := by
  intro before ev after t₀ outer₀ v heq hreturns
  rcases List.append_eq_append_iff.mp heq with ⟨mid, rfl, heq'⟩ | ⟨mid, heq', heq''⟩
  · exact h' mid ev after t₀ outer₀ v heq' hreturns
  · cases mid with
    | nil =>
      rw [List.nil_append] at heq''
      exact h' [] ev after t₀ outer₀ v heq''.symm hreturns
    | cons first mid =>
      injection heq'' with hfirst hmid
      subst hfirst
      rcases h before ev mid t₀ outer₀ v heq' hreturns with hhanded | ⟨hnone, _⟩
      · rw [hmid]
        exact .inl (hhanded.append evs')
      · cases hnone

/-- What a part returned its parent returns. -/
theorem Accounted.up {ev : Event} (h : Accounted t (parent :: outer) (some v) evs)
    (hpart : t.PartOf parent) (hev : ev.Returns parent outer v) :
    Accounted parent outer (some v) (evs ++ [ev]) := by
  intro before ev' after t₀ outer₀ v₀ heq hreturns
  rcases List.eq_nil_or_concat' after with rfl | ⟨mid, last, rfl⟩
  · obtain ⟨-, hlast⟩ := List.append_inj' heq rfl
    cases hlast
    obtain ⟨result, hends, hresult⟩ := hev.ends
    obtain ⟨result', hends', hresult'⟩ := hreturns.ends
    cases hev.tasks.symm.trans hreturns.tasks
    cases hends.symm.trans hends'
    cases hresult.symm.trans hresult'
    exact .inr ⟨rfl, .here⟩
  · have heq' : evs ++ [ev] = (before ++ ev' :: mid) ++ [last] := by simpa using heq
    obtain ⟨rfl, hlast⟩ := List.append_inj' heq' rfl
    cases hlast
    rcases h before ev' mid t₀ outer₀ v₀ rfl hreturns with hhanded | ⟨hv, hrises⟩
    · exact .inl (hhanded.append _)
    · cases hv
      exact .inr ⟨rfl, hrises.last hpart hev⟩

/-- What the body of a function returned its call ends with. -/
theorem Accounted.call {f : Function} {arguments : List Value} {result last : Event}
    (h : Accounted t (.invoke f arguments :: outer) (some v) evs)
    (hpart : t.PartOf (.invoke f arguments))
    (hresult : ∃ halt m, result.occurrence = .step .nothing halt m)
    (hlast : last.EndsCall f arguments outer (resultOf f v result.machine.store)) :
    Accounted (.invoke f arguments) outer none (evs ++ [result, last]) := by
  intro before ev after t₀ outer₀ v₀ heq hreturns
  -- the two last events are no returns, so the return lies in `evs`
  have hno : ∀ e ∈ [result, last], ¬e.Returns t₀ outer₀ v₀ := by
    intro e he hreturns
    obtain ⟨a, hends, ha⟩ := hreturns.ends
    rcases List.mem_cons.mp he with rfl | he
    · obtain ⟨halt, m, hstep⟩ := hresult
      rw [hstep] at hends
      cases hends
    · rw [List.mem_singleton.mp he, hlast.ends] at hends
      cases hends
      cases ha
  rcases List.append_eq_append_iff.mp heq with ⟨mid, rfl, heq'⟩ | ⟨mid, rfl, heq'⟩
  · exact absurd hreturns (hno ev (heq' ▸ List.mem_append_right _ List.mem_cons_self))
  · cases mid with
    | nil =>
      have hmem : ev ∈ [result, last] := by
        rw [← List.nil_append [result, last], ← heq']
        exact List.mem_cons_self
      exact absurd hreturns (hno ev hmem)
    | cons first mid =>
      injection heq' with hfirst hmid
      subst hfirst
      rw [hmid]
      rcases h before ev mid t₀ outer₀ v₀ rfl hreturns with hhanded | ⟨hv, hrises⟩
      · exact .inl (hhanded.append _)
      · cases hv
        exact .inl (hrises.handed (.call hpart hresult hlast))

/-! ## Layers -/

/-- What a task goes on with when a part of it returned a value: it ends with the value at once, but
a call has a result of its own. -/
def Task.Passes (v : Value) : (parent : Task) → Layer parent.Result → Prop
  | .statement _, l | .statements _, l | .rounds _ _ _, l => l = .done (.returned v)
  | .invoke f _, l => l = .step (callResult f (.returned v)) .nothing .done
  | .clause _, _ | .expression _, _ | .optional _, _ | .expressions _, _ | .property _, _
  | .objectProperty _ _, _ | .call _ _ _, _ => False

/-- If a task that the layer starts returns a value, it is a part of the layer's own task, which
passes the value on. -/
def Layer.Relays (parent : Task) : Layer parent.Result → Prop
  | .done _ => True
  | .step _ _ next => ∀ b, (next b).Relays parent
  | .start t next | .enter _ _ t next => ∀ a,
    match t.returned? a with
    | some v => t.PartOf parent ∧ parent.Passes v (next a)
    | none => (next a).Relays parent

/-- What evaluates something returns no value from a function. -/
theorem Task.Evaluates.returned? {t : Task} (h : t.Evaluates) (a : t.Result) :
    t.returned? a = none := by
  cases t with
  | statement s => exact h.elim
  | statements ss => exact h.elim
  | rounds condition body increment => exact h.elim
  | _ => rfl

/-- A layer passes on what its parts return if no task that it starts returns a value. -/
theorem Layer.Starts.relays {parent : Task} {l : Layer parent.Result}
    (h : l.Starts fun t => ∀ a, t.returned? a = none) : l.Relays parent := by
  induction l with
  | done a => trivial
  | step x mark next ih => exact fun b => ih b (h b)
  | start t next ih | enter frame f t next ih =>
    intro a
    rw [h.1 a]
    exact ih a (h.2 a)

/-- A part whose result is the result of the whole. -/
theorem Layer.relays_last {s s' : Stmt} (hpart : (Task.statement s').PartOf (.statement s)) :
    (Layer.start (.statement s') .done).Relays (.statement s) := by
  intro flow
  cases flow with
  | returned v => exact ⟨hpart, rfl⟩
  | _ => trivial

theorem Layer.statement_relays (s : Stmt) : (Layer.statement s).Relays (.statement s) := by
  cases s with
  | block body =>
    intro frame flow
    cases flow with
    | returned v => exact ⟨.block, rfl⟩
    | _ => trivial
  | conditional condition whenTrue whenFalse =>
    intro value
    show Layer.Relays (.statement _) (if value.isTruthy = true then _ else _)
    split
    next => exact relays_last .whenTrue
    next =>
      cases whenFalse with
      | none => trivial
      | some s => exact relays_last .whenFalse
  | loop condition body increment =>
    intro flow
    cases flow with
    | returned v => exact ⟨.loop, rfl⟩
    | _ => trivial
  | breakLoop keyword => trivial
  | continueLoop keyword => trivial
  | empty => trivial
  | classDecl d => exact fun _ _ => trivial
  | expression value => exact fun _ => trivial
  | functionDecl d => exact fun _ => trivial
  | input keyword target => exact fun _ _ => trivial
  | print keyword value => exact fun _ _ => trivial
  | returnValue keyword value => exact fun _ => trivial
  | constant name value => exact fun _ _ => trivial
  | «var» name value => exact fun _ _ => trivial

theorem Layer.rounds_relays (condition : Expr) (body : Stmt) (increment : Option Expr) :
    (Layer.rounds condition body increment).Relays (.rounds condition body increment) := by
  have hagain : (Layer.start (.optional increment) fun _ =>
      .start (.rounds condition body increment) .done).Relays
        (.rounds condition body increment) := by
    intro _ flow
    cases flow with
    | returned v => exact ⟨.again, rfl⟩
    | _ => trivial
  intro value
  show Layer.Relays (.rounds _ _ _) (if value.isTruthy = true then _ else _)
  split
  next =>
    intro flow
    cases flow with
    | returned v => exact ⟨.round, rfl⟩
    | breakLoop => trivial
    | normal => exact hagain
    | continueLoop => exact hagain
  next => trivial

/-- Every task passes on what its parts return. -/
theorem Task.layer_relays (t : Task) : t.layer.Relays t := by
  cases t with
  | statement s => exact Layer.statement_relays s
  | statements ss =>
    cases ss with
    | nil => trivial
    | cons s ss =>
      intro flow
      cases flow with
      | returned v => exact ⟨.first, rfl⟩
      | breakLoop => trivial
      | continueLoop => trivial
      | normal =>
        intro flow
        cases flow with
        | returned v => exact ⟨.rest, rfl⟩
        | _ => trivial
  | rounds condition body increment => exact Layer.rounds_relays condition body increment
  | clause d =>
    unfold Task.layer
    dsimp only
    split
    next => trivial
    next => exact fun _ _ => trivial
  | expression e =>
    have hstarts := Layer.expression_starts (fun _ => Evaluates.returned?) e
      (.inr fun _ _ _ _ => rfl)
    exact hstarts.relays
  | optional e =>
    cases e with
    | none => trivial
    | some e => exact fun _ => trivial
  | expressions es =>
    cases es with
    | nil => trivial
    | cons e es => exact fun _ _ => trivial
  | property f =>
    unfold Task.layer
    dsimp only
    split
    next => exact fun _ => trivial
    next => trivial
  | objectProperty o name =>
    exact (Layer.objectProperty_starts (fun _ => Evaluates.returned?) o name).relays
  | call callee paren arguments =>
    exact (Layer.call_starts (fun _ => Evaluates.returned?) callee paren arguments).relays
  -- the `return` of a body ends here: the call gives its value, as `Passes` says
  | invoke f arguments =>
    intro frame flow
    cases flow with
    | returned v => exact ⟨.body, rfl⟩
    | _ => exact fun _ => trivial

/-! ## Logs -/

/-- A task that ends accounts for what it returns itself. -/
theorem Accounted.ended {ev : Event} {result : t.Result} (htasks : ev.around.tasks = outer)
    (hends : ev.occurrence = .ends t result) : Accounted t outer (t.returned? result) [ev] := by
  intro before ev' after t₀ outer₀ v heq hreturns
  cases before with
  | cons first before =>
    injection heq with _ heq
    cases before <;> cases heq
  | nil =>
    injection heq with hev hafter
    subst hev hafter
    obtain ⟨result', hends', hresult'⟩ := hreturns.ends
    cases htasks.symm.trans hreturns.tasks
    cases hends.symm.trans hends'
    exact .inr ⟨hresult', .here⟩

theorem not_returns_step {around : Surroundings} {origins : Origins} {m m' : Machine} {mark : Mark}
    {halt : Option Halt} (t : Task) (outer : List Task) (v : Value) :
    ¬(Event.mk around origins m (.step mark halt m')).Returns t outer v :=
  fun h => nomatch h.ends

/-- What the call of a function gives when a `return` ended its body. -/
theorem callResult_returned (f : Function) (v : Value) (m : Machine) :
    callResult f (.returned v) m = .ok (resultOf f v m.store) m := by
  unfold callResult resultOf
  by_cases h : f.isInitializer = true
  · rw [if_pos h, if_pos h]
    rfl
  · rw [if_neg h, if_neg h]
    rfl

section Logs

variable {sub : (t : Task) → Surroundings → Traced t.Result}

/-- What a task logs if it goes on with a layer that passes a value on. -/
theorem passes_logs {around : Surroundings} {l : Layer parent.Result}
    (hpart : t.PartOf parent) (h : parent.Passes v l) :
    Logs (recorded parent around (l.trace sub (around.inside parent))) fun _ b evs' _ =>
      ∀ evs, Accounted t (parent :: around.tasks) (some v) evs →
        Accounted parent around.tasks (b.bind parent.returned?) (evs ++ evs') := by
  -- a task that runs statements ends at once
  have hends : ∀ result : parent.Result, l = .done result → parent.returned? result = some v →
      Logs (recorded parent around (l.trace sub (around.inside parent))) fun _ b evs' _ =>
        ∀ evs, Accounted t (parent :: around.tasks) (some v) evs →
          Accounted parent around.tasks (b.bind parent.returned?) (evs ++ evs') := by
    rintro result rfl hresult
    refine recorded_logs (.pure (P := fun s a evs s' => a = some result ∧ evs = [])
      fun s => ⟨rfl, rfl⟩) ?_ ?_
    · rintro s a evs s' origins m ⟨ha, rfl⟩ _ evs₀ hevs
      cases ha
      show Accounted parent around.tasks (parent.returned? result) _
      rw [hresult]
      exact hevs.up hpart ⟨rfl, result, rfl, hresult⟩
    · rintro s evs s' ⟨hnone, _⟩
      cases hnone
  cases parent with
  | statement s => exact hends (.returned v) h rfl
  | statements ss => exact hends (.returned v) h rfl
  | rounds condition body increment => exact hends (.returned v) h rfl
  | invoke f arguments =>
    cases h
    refine recorded_logs (P := fun s a evs s' => ∃ ev, evs = [ev] ∧ ev.machine.store = s ∧
      a = some (resultOf f v s) ∧ ∃ halt m, ev.occurrence = .step .nothing halt m) ?_ ?_ ?_
    · refine Logs.bind (R := fun b s b' evs s' => b' = some b ∧ evs = [] ∧ s' = s)
        (P := fun s a evs s' => ∃ ev, evs = [ev] ∧ ev.machine.store = s ∧
          a = some (resultOf f v s) ∧ ∃ halt m, ev.occurrence = .step .nothing halt m)
        (.observe ?_ ?_) (fun b => .pure fun s => ⟨rfl, rfl, rfl⟩) ?_ fun _ _ _ h => h
      · intro origins m b m' hx
        rw [callResult_returned] at hx
        cases hx
        exact ⟨_, rfl, rfl, rfl, _, _, rfl⟩
      · intro origins m e m' hx
        rw [callResult_returned] at hx
        cases hx
      · rintro s b evs s₁ b' evs' s' ⟨ev, rfl, hstore, hb, hstep⟩ ⟨rfl, rfl, rfl⟩
        exact ⟨ev, rfl, hstore, hb, hstep⟩
    · rintro s a evs s' origins m ⟨ev, rfl, hstore, ha, hstep⟩ _ evs₀ hevs
      cases ha
      refine hevs.call hpart hstep ⟨rfl, ?_⟩
      rw [hstore]
    · rintro s evs s' ⟨ev, _, _, ha, _⟩
      cases ha
  | _ => exact h.elim

/-- What a task logs accounts for all that its parts return, if what they log does. -/
theorem relays_logs
    (hsub : ∀ t around, Logs (sub t around) fun _ result evs _ =>
      Accounted t around.tasks (result.bind t.returned?) evs)
    {around : Surroundings} {l : Layer parent.Result} (h : l.Relays parent) :
    Logs (recorded parent around (l.trace sub (around.inside parent))) fun _ result evs _ =>
      Accounted parent around.tasks (result.bind parent.returned?) evs := by
  -- a part that was run, and the rest of the layer after it
  have hpart : ∀ (t : Task) (x : Traced t.Result) (next : t.Result → Layer parent.Result),
      (∀ a, (next a).Relays parent →
        Logs (recorded parent around ((next a).trace sub (around.inside parent)))
          fun _ result evs _ =>
            Accounted parent around.tasks (result.bind parent.returned?) evs) →
      (∀ a, match t.returned? a with
        | some v => t.PartOf parent ∧ parent.Passes v (next a)
        | none => (next a).Relays parent) →
      Logs x (fun _ result evs _ =>
        Accounted t (parent :: around.tasks) (result.bind t.returned?) evs) →
      Logs (x >>= fun a =>
        recorded parent around ((next a).trace sub (around.inside parent))) fun _ result evs _ =>
          Accounted parent around.tasks (result.bind parent.returned?) evs := by
    intro t x next ih hnext hx
    refine hx.bind (R := fun a _ result evs' _ => ∀ evs,
      Accounted t (parent :: around.tasks) (t.returned? a) evs →
        Accounted parent around.tasks (result.bind parent.returned?) (evs ++ evs'))
      (fun a => ?_) (fun _ _ _ _ _ _ _ hP hR => hR _ hP) fun _ _ _ hP => ?_
    · have ha := hnext a
      cases hreturned : t.returned? a with
      | none =>
        rw [hreturned] at ha
        exact (ih a ha).mono fun _ _ _ _ hevs' evs hevs => hevs.append hevs'
      | some v =>
        rw [hreturned] at ha
        exact passes_logs ha.1 ha.2
    · have hnil : Accounted parent around.tasks none [] := Accounted.nil
      have happend := hP.append hnil
      rwa [List.append_nil] at happend
  induction l with
  | done a =>
    refine recorded_logs (.pure (P := fun s b evs s' => b = some a ∧ evs = []) fun s => ⟨rfl, rfl⟩)
      ?_ ?_
    · rintro s b evs s' origins m ⟨hb, rfl⟩ _
      cases hb
      exact .ended rfl rfl
    · rintro s evs s' ⟨hb, _⟩
      cases hb
  | step x mark next ih =>
    show Logs (recorded parent around (observe (around.inside parent) mark x >>= _)) _
    rw [recorded_bind]
    refine Logs.bind (P := fun _ _ evs _ => ∃ ev, evs = [ev] ∧ ∀ t₀ outer₀ v,
      ¬ev.Returns t₀ outer₀ v) (.observe ?_ ?_) (fun b => ih b (h b)) ?_ ?_
    · exact fun _ _ _ _ _ => ⟨_, rfl, not_returns_step⟩
    · exact fun _ _ _ _ _ => ⟨_, rfl, not_returns_step⟩
    · rintro s b evs s₁ result evs' s' ⟨ev, rfl, hev⟩ hevs'
      exact hevs'.cons hev
    · rintro s evs s' ⟨ev, rfl, hev⟩
      exact Accounted.nil.cons hev
  | start t next ih =>
    show Logs (recorded parent around (sub t (around.inside parent) >>= _)) _
    rw [recorded_bind]
    exact hpart t _ next ih h (hsub t (around.inside parent))
  | enter frame f t next ih =>
    let x : Traced t.Result := fun r =>
      withinFrame frame (sub t ((around.inside parent).enter frame f r.history.origins)) r
    have hx := hpart t x next ih h fun r =>
      (hsub t ((around.inside parent).enter frame f r.history.origins)).withinFrame r
    rw [← recorded_bind] at hx
    exact hx

end Logs

/-- What a run of a task returns is accounted for. -/
theorem Task.trace_accounted (fuel : Nat) (t : Task) (around : Surroundings) :
    Logs (t.trace fuel around) fun _ result evs _ =>
      Accounted t around.tasks (result.bind t.returned?) evs :=
  Task.trace_logs (Q := fun t tasks _ result evs _ =>
      Accounted t tasks (result.bind t.returned?) evs) (fun _ _ _ => .nil)
    (fun _ hsub t _ => relays_logs hsub t.layer_relays) fuel t around

/-- Whatever is returned at these moments is handed to a call, unless it rises to the end of a
statement of a program. -/
def AccountedFor (evs : List Event) : Prop :=
  ∀ before ev after t outer v, evs = before ++ ev :: after → ev.Returns t outer v →
    Handed v t outer after ∨
      ∃ s path later, after = path ++ later ∧ Rises v (.statement s) [] t outer path

theorem AccountedFor.append (h : AccountedFor evs) (h' : AccountedFor evs') :
    AccountedFor (evs ++ evs') := by
  intro before ev after t outer v heq hreturns
  rcases List.append_eq_append_iff.mp heq with ⟨mid, rfl, heq'⟩ | ⟨mid, rfl, heq'⟩
  · exact h' mid ev after t outer v heq' hreturns
  · cases mid with
    | nil => exact h' [] ev after t outer v heq'.symm hreturns
    | cons first mid =>
      injection heq' with hfirst hmid
      subst hfirst
      rw [hmid]
      rcases h before ev mid t outer v rfl hreturns with hhanded | ⟨s, path, later, rfl, hrises⟩
      · exact .inl (hhanded.append evs')
      · exact .inr ⟨s, path, later ++ evs', List.append_assoc .., hrises⟩

theorem Accounted.accountedFor {s : Stmt} (h : Accounted (.statement s) [] returned evs) :
    AccountedFor evs := by
  intro before ev after t outer v heq hreturns
  rcases h before ev after t outer v heq hreturns with hhanded | ⟨_, hrises⟩
  · exact .inl hhanded
  · exact .inr ⟨s, after, [], (List.append_nil _).symm, hrises⟩

theorem accountedFor_law : LogLaw fun _ evs _ => AccountedFor evs where
  nil _ before ev after t outer v heq := by simp at heq
  append := AccountedFor.append
  statement fuel s :=
    (Task.trace_accounted fuel (.statement s) .top).mono fun _ _ _ _ h => h.accountedFor
  expression fuel e := by
    refine (Task.trace_accounted fuel (.expression e) .top).mono fun _ result evs _ h => ?_
    intro before ev after t outer v heq hreturns
    rcases h before ev after t outer v heq hreturns with hhanded | ⟨hnone, _⟩
    · exact .inl hhanded
    · cases result <;> cases hnone
  write value := by
    have hstep : ∀ ev : Event, (∃ mark halt m, ev.occurrence = .step mark halt m) →
        AccountedFor [ev] := by
      rintro ev ⟨mark, halt, m, hev⟩ before ev' after t outer v heq hreturns
      obtain ⟨result, hends, _⟩ := hreturns.ends
      have hmem : ev' ∈ [ev] := heq ▸ List.mem_append_right _ List.mem_cons_self
      rw [List.mem_singleton.mp hmem, hev] at hends
      cases hends
    exact .observe (fun _ _ _ _ _ => hstep _ ⟨_, _, _, rfl⟩) fun _ _ _ _ _ => hstep _ ⟨_, _, _, rfl⟩

/-- What rises to a task is returned by it. -/
theorem Rises.returns {ev : Event} (h : Rises v t' outer' t outer evs)
    (hev : ev.Returns t outer v) :
    ∃ ev' ∈ ev :: evs, ev'.Returns t' outer' v := by
  induction h generalizing ev with
  | here => exact ⟨ev, List.mem_cons_self, hev⟩
  | up hpart hev' _ ih =>
    obtain ⟨ev', hmem, hreturns⟩ := ih hev'
    exact ⟨ev', List.mem_cons_of_mem _ hmem, hreturns⟩

end Eval

open Eval

namespace Chronicle

/-- Control never leaves a program. In every session, a statement of a program ends normally if it
ends, and neither a loop nor the body of a function ends with a `break` or a `continue`; and what a
`return` gives ends the statements around it one after the other, each a part of the next, and then
the innermost call, whose body they are in. -/
theorem flows_end (input : Input) (output : Output) (host : Host) (fuel : Nat)
    (steps : List Step) :
    let log := (takeAll fuel steps (start input output host)).run.history.log
    (∀ ev ∈ log, ∀ t result, ev.occurrence = .ends t result →
      t.EndsWell ev.around.tasks result) ∧
    ∀ before ev after t outer v, log = before ++ ev :: after → ev.Returns t outer v →
      Handed v t outer after := by
  have hagrees := log_agrees input output host fuel steps
  -- every `return` that is noted is either handed to a call, or rises to the top of a program
  obtain ⟨evs, hlog, hevs⟩ := takeAll_logs accountedFor_law fuel steps (start input output host)
  have hends : ∀ ev ∈ (takeAll fuel steps (start input output host)).run.history.log,
      ∀ t result, ev.occurrence = .ends t result → t.EndsWell ev.around.tasks result := by
    intro ev hev t result hends
    have hev := hagrees ev hev
    unfold Event.Agrees at hev
    rw [hends] at hev
    exact hev
  refine ⟨hends, fun before ev after t outer v heq hreturns => ?_⟩
  rw [show (start input output host).run.history.log = [] from rfl, List.nil_append] at hlog
  rcases hevs before ev after t outer v (hlog ▸ heq) hreturns with hhanded | hrises
  · exact hhanded
  · -- a statement of a program does not return
    obtain ⟨s, path, later, rfl, hrises⟩ := hrises
    obtain ⟨ev', hmem, htop⟩ := hrises.returns hreturns
    have hmem' : ev' ∈ (takeAll fuel steps (start input output host)).run.history.log := by
      rw [heq, ← List.cons_append]
      exact List.mem_append_right _ (List.mem_append_left _ hmem)
    obtain ⟨flow, hoccurrence, hflow⟩ := htop.ends
    have hnormal := (hends ev' hmem' _ flow hoccurrence).1 htop.tasks
    rw [hnormal] at hflow
    cases hflow

/-- A `return` inside a block inside a loop ends the call, and the loop ended without a jump. -/
theorem flows_end_return_in_loop :
    let log := (takeAll 14 [.run "fun f() { while (true) { return nil; } } f();"]
      (start ⟨[]⟩ {} ⟨fun _ => 0, fun _ => 0, 0, 0⟩)).run.history.log
    (∃ ev ∈ log, ∃ t result, ev.occurrence = .ends t result ∧
      t.EndsWell ev.around.tasks result) ∧
    ∃ before ev after t outer v, log = before ++ ev :: after ∧ ev.Returns t outer v ∧
      Handed v t outer after := by
  intro log
  obtain ⟨hends, hhanded⟩ := flows_end ⟨[]⟩ {} ⟨fun _ => 0, fun _ => 0, 0, 0⟩ 14
    [.run "fun f() { while (true) { return nil; } } f();"]
  have hany : log.any (fun ev => match ev.occurrence with
      | .ends t result => (t.returned? result).isSome
      | .step _ _ _ => false) = true := by decide +kernel
  obtain ⟨ev, hev, hreturned⟩ := List.any_eq_true.mp hany
  obtain ⟨before, after, heq⟩ := List.append_of_mem hev
  cases hoccurrence : ev.occurrence with
  | step mark halt m =>
    rw [hoccurrence] at hreturned
    cases hreturned
  | ends t result =>
    rw [hoccurrence] at hreturned
    obtain ⟨v, hv⟩ := Option.isSome_iff_exists.mp hreturned
    have hreturns : ev.Returns t ev.around.tasks v := ⟨rfl, result, hoccurrence, hv⟩
    exact ⟨⟨ev, hev, t, result, hoccurrence, hends ev hev t result hoccurrence⟩,
      before, ev, after, t, _, v, heq, hreturns, hhanded _ _ _ _ _ _ heq hreturns⟩

end Chronicle

end Lox
