import Lox.Proofs.Run.Actions
import Lox.Proofs.Run.Chronicle

/-!
# What runs add to the log

A run only adds moments to its log. `Logs x P` says of a computation how the moments it adds are
related to what it gives and to the stores before and after it. The relation is proved of tasks by
induction on the fuel and on their layers, and of whole sessions from the tasks that they run
(`Chronicle.takeAll_logs`).
-/

namespace Lox

namespace Eval

/-- However the computation ends, the moments it adds to the log, its result if it gives one, and
the stores before and after it stand in the relation. -/
def Logs {α : Type} (x : Traced α) (P : Store → Option α → List Event → Store → Prop) : Prop :=
  ∀ r, match x r with
    | .ok a r' => ∃ evs, r'.history.log = r.history.log ++ evs ∧
        P r.machine.store (some a) evs r'.machine.store
    | .error _ r' => ∃ evs, r'.history.log = r.history.log ++ evs ∧
        P r.machine.store none evs r'.machine.store

namespace Logs

variable {α β : Type} {x : Traced α} {f : α → Traced β}
variable {P P' : Store → Option α → List Event → Store → Prop}
variable {Q : Store → Option β → List Event → Store → Prop}

theorem mono (hx : Logs x P) (h : ∀ s a evs s', P s a evs s' → P' s a evs s') : Logs x P' := by
  intro r
  have hr := hx r
  cases hxr : x r with
  | ok a r' =>
    rw [hxr] at hr
    obtain ⟨evs, hlog, hP⟩ := hr
    exact ⟨evs, hlog, h _ _ _ _ hP⟩
  | error e r' =>
    rw [hxr] at hr
    obtain ⟨evs, hlog, hP⟩ := hr
    exact ⟨evs, hlog, h _ _ _ _ hP⟩

/-- A result without a step. -/
theorem pure {a : α} (h : ∀ s, P s (some a) [] s) : Logs (pure a : Traced α) P :=
  fun _ => ⟨[], (List.append_nil _).symm, h _⟩

/-- One computation and then another. What the first one added stands before what the second one
adds. -/
theorem bind {R : α → Store → Option β → List Event → Store → Prop} (hx : Logs x P)
    (hf : ∀ a, Logs (f a) (R a))
    (hok : ∀ s a evs s₁ b evs' s', P s (some a) evs s₁ → R a s₁ b evs' s' → Q s b (evs ++ evs') s')
    (herror : ∀ s evs s', P s none evs s' → Q s none evs s') : Logs (x >>= f) Q := by
  intro r
  have hr := hx r
  show match EStateM.bind x f r with
    | .ok b r' => ∃ evs, r'.history.log = r.history.log ++ evs ∧
        Q r.machine.store (some b) evs r'.machine.store
    | .error _ r' => ∃ evs, r'.history.log = r.history.log ++ evs ∧
        Q r.machine.store none evs r'.machine.store
  unfold EStateM.bind
  cases hxr : x r with
  | error e r' =>
    rw [hxr] at hr
    obtain ⟨evs, hlog, hP⟩ := hr
    exact ⟨evs, hlog, herror _ _ _ hP⟩
  | ok a r₁ =>
    rw [hxr] at hr
    obtain ⟨evs, hlog, hP⟩ := hr
    have hr₁ := hf a r₁
    dsimp only
    cases hfr : f a r₁ with
    | ok b r' =>
      rw [hfr] at hr₁
      obtain ⟨evs', hlog', hR⟩ := hr₁
      exact ⟨evs ++ evs', by rw [hlog', hlog, List.append_assoc], hok _ _ _ _ _ _ _ hP hR⟩
    | error e r' =>
      rw [hfr] at hr₁
      obtain ⟨evs', hlog', hR⟩ := hr₁
      exact ⟨evs ++ evs', by rw [hlog', hlog, List.append_assoc], hok _ _ _ _ _ _ _ hP hR⟩

/-- Entering a frame and leaving it adds nothing. -/
theorem withinFrame {frame : FrameId} (hx : Logs x P) : Logs (withinFrame frame x) P := by
  intro r
  have hr := hx (r.atFrame frame)
  unfold Eval.withinFrame
  cases hxr : x (r.atFrame frame) with
  | ok a r' =>
    rw [hxr] at hr
    exact hr
  | error e r' =>
    rw [hxr] at hr
    exact hr

/-- A step adds its moment. -/
theorem observe {around : Surroundings} {mark : Mark} {y : Exec α}
    (hok : ∀ origins m a m', y m = .ok a m' →
      P m.store (some a) [⟨around, origins, m, .step mark none m'⟩] m'.store)
    (herror : ∀ origins m e m', y m = .error e m' →
      P m.store none [⟨around, origins, m, .step mark (some e) m'⟩] m'.store) :
    Logs (observe around mark y) P := by
  intro r
  unfold Eval.observe
  cases hy : y r.machine with
  | ok a m => exact ⟨_, rfl, hok _ _ _ _ hy⟩
  | error e m => exact ⟨_, rfl, herror _ _ _ _ hy⟩

end Logs

/-- The end of a task is recorded. -/
def recorded (t : Task) (around : Surroundings) (x : Traced t.Result) : Traced t.Result := do
  let result ← x
  modify fun r => r.record around (.ends t result)
  return result

theorem recorded_bind {α : Type} {t : Task} {around : Surroundings} (x : Traced α)
    (f : α → Traced t.Result) :
    recorded t around (x >>= f) = x >>= fun a => recorded t around (f a) :=
  bind_assoc x f _

theorem recorded_logs {t : Task} {around : Surroundings} {x : Traced t.Result}
    {P Q : Store → Option t.Result → List Event → Store → Prop} (hx : Logs x P)
    (hok : ∀ s a evs s' origins m, P s (some a) evs s' → m.store = s' →
      Q s (some a) (evs ++ [⟨around, origins, m, .ends t a⟩]) s')
    (herror : ∀ s evs s', P s none evs s' → Q s none evs s') : Logs (recorded t around x) Q := by
  refine hx.bind (R := fun a s b evs s' => s' = s ∧ b = some a ∧
    ∃ origins m, m.store = s ∧ evs = [⟨around, origins, m, .ends t a⟩])
    (fun a r => ⟨_, rfl, rfl, rfl, _, _, rfl, rfl⟩) ?_ herror
  rintro s a evs s₁ b evs' s' hP ⟨rfl, rfl, origins, m, hm, rfl⟩
  exact hok s a evs s' origins m hP hm

/-- What a relation asks of layers to hold of the tasks that are run. -/
theorem Task.trace_logs
    {Q : (t : Task) → List Task → Store → Option t.Result → List Event → Store → Prop}
    (hzero : ∀ t tasks s, Q t tasks s none [] s)
    (hlayer : ∀ sub : (t : Task) → Surroundings → Traced t.Result,
      (∀ t around, Logs (sub t around) (Q t around.tasks)) → ∀ t around,
        Logs (recorded t around (t.layer.trace sub (around.inside t))) (Q t around.tasks))
    (fuel : Nat) (t : Task) (around : Surroundings) :
    Logs (t.trace fuel around) (Q t around.tasks) := by
  induction fuel generalizing t around with
  | zero => exact fun r => ⟨[], (List.append_nil _).symm, hzero t around.tasks _⟩
  | succ fuel ih => exact hlayer _ ih t around

/-! ## From store to store -/

/-- The computation does what the relation says, from every machine and however it ends. -/
def Does {α : Type} (x : Exec α) (Q : Machine → Option Halt → Machine → Prop) : Prop :=
  ∀ m, match x m with
    | .ok _ m' => Q m none m'
    | .error e m' => Q m (some e) m'

/-- Every step of the layer does what the relation says. -/
def Layer.Takes (Q : Mark → Machine → Option Halt → Machine → Prop) {α : Type} : Layer α → Prop
  | .done _ => True
  | .step x mark next => Does x (Q mark) ∧ ∀ b, (next b).Takes Q
  | .start _ next | .enter _ _ _ next => ∀ a, (next a).Takes Q

/-- What every action does, every step of a task does. -/
theorem Task.layer_takes {Q : List Task → Mark → Machine → Option Halt → Machine → Prop}
    (hQ : ∀ {tasks : List Task} {α : Type} {x : Exec α} {mark : Mark}, Action tasks x mark →
      Does x (Q tasks mark))
    (t : Task) (outer : List Task) : t.layer.Takes (Q (t :: outer)) := by
  have htakes : ∀ {α : Type} {l : Layer α}, l.Acts (t :: outer) → l.Takes (Q (t :: outer)) := by
    intro α l h
    induction l with
    | done a => trivial
    | step x mark next ih => exact ⟨hQ h.1, fun b => ih b (h.2 b)⟩
    | start t' next ih | enter frame f t' next ih => exact fun a => ih a (h a)
  exact htakes (t.layer_acts outer)

/-- The steps lead from one store to the other, each doing what the relation says of it inside the
tasks at work. -/
def Leads (Q : List Task → Mark → Machine → Option Halt → Machine → Prop) (s : Store) :
    List Event → Store → Prop
  | [], s' => s' = s
  | ev :: evs, s' =>
    ev.machine.store = s ∧
      match ev.occurrence with
      | .step mark halt m => Q ev.around.tasks mark ev.machine halt m ∧ Leads Q m.store evs s'
      | .ends _ _ => Leads Q s evs s'

section Leads

variable {Q : List Task → Mark → Machine → Option Halt → Machine → Prop} {s s' s₁ : Store}
variable {evs evs' : List Event}

theorem Leads.append_iff :
    Leads Q s (evs ++ evs') s' ↔ ∃ s₁, Leads Q s evs s₁ ∧ Leads Q s₁ evs' s' := by
  induction evs generalizing s with
  | nil => exact ⟨fun h => ⟨s, rfl, h⟩, fun ⟨_, h, h'⟩ => h ▸ h'⟩
  | cons ev evs ih =>
    cases hev : ev.occurrence with
    | step mark halt m =>
      simp only [hev, List.cons_append, Leads, ih]
      constructor
      · rintro ⟨hs, hQ, s₁, h, h'⟩
        exact ⟨s₁, ⟨hs, hQ, h⟩, h'⟩
      · rintro ⟨s₁, ⟨hs, hQ, h⟩, h'⟩
        exact ⟨hs, hQ, s₁, h, h'⟩
    | ends t result =>
      simp only [hev, List.cons_append, Leads, ih]
      constructor
      · rintro ⟨hs, s₁, h, h'⟩
        exact ⟨s₁, ⟨hs, h⟩, h'⟩
      · rintro ⟨s₁, ⟨hs, h⟩, h'⟩
        exact ⟨hs, s₁, h, h'⟩

theorem Leads.append (h : Leads Q s evs s₁) (h' : Leads Q s₁ evs' s') :
    Leads Q s (evs ++ evs') s' :=
  append_iff.mpr ⟨s₁, h, h'⟩

/-- The steps of a layer lead from store to store, if the steps of the tasks that it starts do. -/
theorem Layer.trace_leads {α : Type} {sub : (t : Task) → Surroundings → Traced t.Result}
    (hsub : ∀ t around, Logs (sub t around) fun s _ evs s' => Leads Q s evs s')
    {around : Surroundings} {l : Layer α} (h : l.Takes (Q around.tasks)) :
    Logs (l.trace sub around) fun s _ evs s' => Leads Q s evs s' := by
  -- what comes first, and the rest of the layer after it
  have hbind : ∀ {β : Type} {x : Traced β} {next : β → Layer α},
      Logs x (fun s _ evs s' => Leads Q s evs s') →
      (∀ b, Logs ((next b).trace sub around) fun s _ evs s' => Leads Q s evs s') →
      Logs (x >>= fun b => (next b).trace sub around) fun s _ evs s' => Leads Q s evs s' :=
    fun hx hnext => hx.bind hnext (fun _ _ _ _ _ _ _ h h' => h.append h') fun _ _ _ h => h
  induction l with
  | done a => exact .pure fun s => rfl
  | step x mark next ih =>
    refine hbind (.observe (fun origins m b m' hx => ?_) fun origins m e m' hx => ?_)
      fun b => ih b (h.2 b)
    · have hm := h.1 m
      rw [hx] at hm
      exact ⟨rfl, hm, rfl⟩
    · have hm := h.1 m
      rw [hx] at hm
      exact ⟨rfl, hm, rfl⟩
  | start t next ih => exact hbind (hsub t around) fun a => ih a (h a)
  | enter frame f t next ih =>
    refine hbind (fun r => ?_) fun a => ih a (h a)
    exact (hsub t (around.enter frame f r.history.origins)).withinFrame r

/-- The steps of a task lead from store to store, if all layers take such steps. -/
theorem Task.trace_leads (h : ∀ (t : Task) (outer : List Task), t.layer.Takes (Q (t :: outer)))
    (fuel : Nat) (t : Task)
    (around : Surroundings) :
    Logs (t.trace fuel around) fun s _ evs s' => Leads Q s evs s' := by
  refine Task.trace_logs (Q := fun _ _ s _ evs s' => Leads Q s evs s') (fun _ _ s => rfl)
    (fun sub hsub t around => ?_) fuel t around
  refine recorded_logs (Layer.trace_leads hsub (h t around.tasks)) ?_ fun _ _ _ h => h
  intro s a evs s' origins m h hm
  exact h.append ⟨hm, rfl⟩

end Leads

end Eval

open Eval

/-! ## Whole sessions -/

/-- What a relation between the stores before and after some moments needs to hold of whole
sessions. -/
structure LogLaw (P : Store → List Event → Store → Prop) : Prop where
  nil : ∀ s, P s [] s
  append : ∀ {s evs s₁ evs' s'}, P s evs s₁ → P s₁ evs' s' → P s (evs ++ evs') s'
  statement : ∀ fuel s,
    Logs ((Task.statement s).trace fuel .top) fun s _ evs s' => P s evs s'
  expression : ∀ fuel e,
    Logs ((Task.expression e).trace fuel .top) fun s _ evs s' => P s evs s'
  write : ∀ value,
    Logs (observe .top .nothing (Exec.writeLine value)) fun s _ evs s' => P s evs s'

namespace LogLaw

variable {P : Store → List Event → Store → Prop} (law : LogLaw P)

include law

theorem program (fuel : Nat) (ss : List Stmt) :
    Logs (traceProgram fuel ss) fun s _ evs s' => P s evs s' := by
  induction ss with
  | nil => exact .pure law.nil
  | cons s ss ih =>
    exact (law.statement fuel s).bind (fun _ => ih)
      (fun _ _ _ _ _ _ _ h h' => law.append h h') (fun _ _ _ h => h)

theorem writtenExpression (fuel : Nat) (e : Expr) :
    Logs (traceExpression fuel e) fun s _ evs s' => P s evs s' := by
  refine (law.expression fuel e).bind (fun value => ?_)
    (fun _ _ _ _ _ _ _ h h' => law.append h h') (fun _ _ _ h => h)
  exact (law.write value).bind (fun _ => .pure law.nil)
    (fun _ _ _ _ _ _ _ h h' => law.append h h') (fun _ _ _ h => h)

end LogLaw

/-- The steps of a session lead from store to store. -/
theorem LogLaw.leads {Q : List Task → Eval.Mark → Machine → Option Halt → Machine → Prop}
    (h : ∀ (t : Task) (outer : List Task), t.layer.Takes (Q (t :: outer)))
    (hwrite : ∀ value m fits m', Exec.writeLine value m = .ok fits m' →
      Q [] .nothing m none m') :
    LogLaw (Leads Q) where
  nil _ := rfl
  append h h' := h.append h'
  statement fuel s := Task.trace_leads h fuel (.statement s) .top
  expression fuel e := Task.trace_leads h fuel (.expression e) .top
  write value :=
    .observe (fun _ m fits m' hx => ⟨rfl, hwrite value m fits m' hx, rfl⟩)
      fun _ _ _ _ hx => nomatch hx

namespace Chronicle

/-- From one chronicle to another, moments are added that stand in the relation. -/
def Adds (P : Store → List Event → Store → Prop) (c c' : Chronicle) : Prop :=
  ∃ evs, c'.run.history.log = c.run.history.log ++ evs ∧
    P c.run.machine.store evs c'.run.machine.store

variable {P : Store → List Event → Store → Prop}

theorem Adds.refl (law : LogLaw P) (c : Chronicle) : c.Adds P c :=
  ⟨[], (List.append_nil _).symm, law.nil _⟩

theorem Adds.trans (law : LogLaw P) {c c₁ c' : Chronicle} (h : c.Adds P c₁) (h' : c₁.Adds P c') :
    c.Adds P c' := by
  obtain ⟨evs, hlog, hP⟩ := h
  obtain ⟨evs', hlog', hP'⟩ := h'
  exact ⟨evs ++ evs', by rw [hlog', hlog, List.append_assoc], law.append hP hP'⟩

/-- A computation adds moments to those that were added before. -/
theorem Adds.ran (law : LogLaw P) {α : Type} {x : Traced α} {c c' : Chronicle} (h : c.Adds P c')
    (hx : Logs x fun s _ evs s' => P s evs s') : c.Adds P ⟨endOf (x c'.run), c'.nextSite⟩ := by
  refine h.trans law ?_
  have hr := hx c'.run
  cases hxr : x c'.run with
  | ok a r =>
    rw [hxr] at hr
    exact hr
  | error e r =>
    rw [hxr] at hr
    exact hr

/-- What holds of the tasks that a session runs holds of the session. -/
theorem takeAll_logs (law : LogLaw P) (fuel : Nat) (steps : List Step) (c : Chronicle) :
    c.Adds P (takeAll fuel steps c) := by
  have hinvariant : Invariant fun c' => c.Adds P c' :=
    .of_runs (fun _ h => h) (fun _ _ h => h) (fun fuel ss h => h.ran law (law.program fuel ss))
      fun fuel e h => h.ran law (law.writtenExpression fuel e)
  exact hinvariant.takeAll fuel steps c (.refl law c)

end Chronicle

end Lox
