import Lox.Proofs.Run.Restores

/-!
# Every text begins at the globals

At each moment of a session the current frame is the one that was entered last and not left yet, or
that of the globals if there is none (`Surroundings.At`). The tasks that a text starts are inside no
frame, so they run at the globals, be the texts before it run to their ends, stopped by errors, or
cut short, and be their names resolved or not.
-/

namespace Lox

namespace Eval

open Exec

/-! ## Where runs are -/

/-- The current frame is the innermost one of those entered, or that of the globals if there is
none. -/
def Surroundings.At (around : Surroundings) (m : Machine) : Prop :=
  m.current = around.frames.headD m.globals

/-- In the same scope the innermost frame is the same. -/
theorem Surroundings.At.same {around : Surroundings} {m m' : Machine} (h : around.At m)
    (hm : m.SameScope m') : around.At m' := by
  unfold At
  rw [hm.current, hm.globals]
  exact h

/-- The second run goes on from the first one and is in the same scope. At the moments in between,
the machine was in the innermost frame. -/
structure Run.Stays (r r' : Run) : Prop where
  scope : r.machine.SameScope r'.machine
  log : ∃ evs, r'.history.log = r.history.log ++ evs ∧ ∀ ev ∈ evs, ev.around.At ev.machine

/-- A run that has not gone on stays where it is. -/
theorem Run.Stays.refl (r : Run) : r.Stays r :=
  ⟨.refl _, [], (List.append_nil _).symm, fun _ h => nomatch h⟩

/-- Runs stay where they are in two stretches. -/
theorem Run.Stays.trans {r r' r'' : Run} (h : r.Stays r') (h' : r'.Stays r'') : r.Stays r'' := by
  obtain ⟨hscope, evs, hlog, hevs⟩ := h
  obtain ⟨hscope', evs', hlog', hevs'⟩ := h'
  refine ⟨hscope.trans hscope', evs ++ evs', by rw [hlog', hlog, List.append_assoc], ?_⟩
  exact fun ev hev => (List.mem_append.mp hev).elim (hevs ev) (hevs' ev)

/-- One more moment, noted at the machine it is of, keeps a run where it stays. -/
theorem Run.Stays.moment {r r' : Run} {ev : Event} (hscope : r.machine.SameScope r'.machine)
    (hlog : r'.history.log = r.history.log ++ [ev]) (hev : ev.around.At ev.machine) :
    r.Stays r' :=
  ⟨hscope, [ev], hlog, fun _ h => List.mem_singleton.mp h ▸ hev⟩

/-- However the computation ends that begins at the innermost frame, the run is in the scope in
which it began, and was at the innermost frame at every moment. -/
def Stationed (around : Surroundings) {α : Type} (x : Traced α) : Prop :=
  ∀ r, around.At r.machine → match x r with
    | .ok _ r' => r.Stays r'
    | .error _ r' => r.Stays r'

namespace Stationed

variable {around : Surroundings} {α β : Type} {x : Traced α} {f : α → Traced β}

/-- Giving back a value goes nowhere. -/
theorem pure (a : α) : Stationed around (pure a : Traced α) :=
  fun r _ => .refl r

/-- What leaves the run where it was lets the next part begin there. -/
theorem bind (hx : Stationed around x) (hf : ∀ a, Stationed around (f a)) :
    Stationed around (x >>= f) := by
  intro r hr
  have hxr := hx r hr
  have hbind : (x >>= f) r = EStateM.bind x f r := rfl
  rw [hbind]
  unfold EStateM.bind
  cases hrun : x r with
  | error e r' =>
    rw [hrun] at hxr
    exact hxr
  | ok a r₁ =>
    rw [hrun] at hxr
    have hfr := hf a r₁ (hr.same hxr.scope)
    dsimp only
    cases hrun' : f a r₁ with
    | ok b r' =>
      rw [hrun'] at hfr
      exact hxr.trans hfr
    | error e r' =>
      rw [hrun'] at hfr
      exact hxr.trans hfr

/-- A step that leaves the machine in its scope. -/
theorem observe {y : Exec α} (mark : Mark) (hy : Restores y) :
    Stationed around (observe around mark y) := by
  intro r hr
  have hm := hy r.machine
  unfold Eval.observe
  cases hrun : y r.machine with
  | ok a m =>
    rw [hrun] at hm
    exact .moment hm rfl hr
  | error e m =>
    rw [hrun] at hm
    exact .moment hm rfl hr

/-- What runs inside a frame is at that frame, which is the innermost one then. -/
theorem enter {frame : FrameId} {callee : Option Function} {sub : Surroundings → Traced α}
    (hx : ∀ inner, Stationed inner (sub inner)) :
    Stationed around fun r =>
      withinFrame frame (sub (around.enter frame callee r.history.origins)) r := by
  intro r _
  have hinner : (around.enter frame callee r.history.origins).At (r.atFrame frame).machine := by
    cases callee <;> rfl
  have hxr := hx _ _ hinner
  unfold withinFrame
  dsimp only
  cases hrun : sub (around.enter frame callee r.history.origins) (r.atFrame frame) with
  | ok a r' =>
    rw [hrun] at hxr
    exact ⟨⟨rfl, hxr.scope.globals, hxr.scope.table⟩, hxr.log⟩
  | error e r' =>
    rw [hrun] at hxr
    exact ⟨⟨rfl, hxr.scope.globals, hxr.scope.table⟩, hxr.log⟩

end Stationed

/-- A layer leaves the run where it was if its steps and tasks do. -/
theorem Layer.trace_stationed {sub : (t : Task) → Surroundings → Traced t.Result}
    (hsub : ∀ t around, Stationed around (sub t around)) {around : Surroundings} {α : Type}
    {l : Layer α} (h : l.Restoring) : Stationed around (l.trace sub around) := by
  induction l with
  | done a => exact .pure a
  | step x mark next ih => exact (Stationed.observe mark h.1).bind fun b => ih b (h.2 b)
  | start t next ih => exact (hsub t around).bind fun a => ih a (h a)
  | enter frame f t next ih => exact (Stationed.enter (hsub t)).bind fun a => ih a (h a)

/-- A task runs at the innermost frame and leaves the machine there. -/
theorem Task.trace_stationed (fuel : Nat) (t : Task) (around : Surroundings) :
    Stationed around (t.trace fuel around) := by
  induction fuel generalizing t around with
  | zero => exact fun r _ => .refl r
  | succ fuel ih =>
    -- the tasks that it starts have one more task around them, but the same frames
    have hlayer : Stationed around (t.layer.trace (Task.trace fuel) (around.inside t)) :=
      (Layer.trace_stationed ih t.layer_restores : Stationed (around.inside t) _)
    exact hlayer.bind fun result r hr => .moment (.refl _) rfl hr

/-! ## Trees run on their own -/

/-- A program ends where it began: at the globals. -/
theorem traceProgram_stationed (fuel : Nat) (ss : List Stmt) :
    Stationed .top (traceProgram fuel ss) := by
  induction ss with
  | nil => exact .pure ()
  | cons s ss ih => exact (Task.trace_stationed fuel (.statement s) .top).bind fun _ => ih

/-- An expression that is evaluated ends where it began: at the globals. -/
theorem traceExpression_stationed (fuel : Nat) (e : Expr) :
    Stationed .top (traceExpression fuel e) :=
  (Task.trace_stationed fuel (.expression e) .top).bind fun value =>
    (Stationed.observe .nothing (writeLine_restores value)).bind fun _ => .pure value

end Eval

open Eval

namespace Chronicle

/-! ## Whole sessions -/

/-- The session is at its globals, which are the frame `outer`, and at each moment it was at the
innermost frame. -/
structure AtTop (outer : FrameId) (c : Chronicle) : Prop where
  globals : c.run.machine.globals = outer
  current : c.run.machine.current = c.run.machine.globals
  log : ∀ ev ∈ c.run.history.log, ev.around.At ev.machine

variable {outer : FrameId} {c : Chronicle} {α : Type} {x : Traced α}

/-- A session starts at its globals. -/
theorem start_atTop (input : Input) (output : Output) (host : Host) :
    (start input output host).AtTop (Machine.start input output host).globals :=
  ⟨rfl, rfl, fun _ h => nomatch h⟩

/-- A tree that is run begins at the globals and leaves the session there, however it ends. -/
theorem AtTop.runs (h : c.AtTop outer) (hx : Stationed .top x) :
    AtTop outer ⟨endOf (x c.run), c.nextSite⟩ := by
  have hstays : ∀ r, c.run.Stays r → AtTop outer ⟨r, c.nextSite⟩ := by
    rintro r ⟨hscope, evs, hlog, hevs⟩
    refine ⟨hscope.globals.trans h.globals,
      hscope.current.trans (h.current.trans hscope.globals.symm), fun ev hev => ?_⟩
    rw [show (Chronicle.mk r c.nextSite).run.history.log = _ from hlog] at hev
    exact (List.mem_append.mp hev).elim (h.log ev) (hevs ev)
  have hr := hx c.run h.current
  cases hrun : x c.run with
  | ok a r =>
    rw [hrun] at hr
    exact hstays r hr
  | error e r =>
    rw [hrun] at hr
    exact hstays r hr

theorem AtTop.begin (h : c.AtTop outer) (table : Table) (root : Root) :
    AtTop outer ⟨c.run.begin table root, c.nextSite⟩ :=
  ⟨h.globals, h.current, h.log⟩

/-- A tree is run that may fail or be cut short. -/
theorem AtTop.ran (h : c.AtTop outer) (hx : Stationed .top x) :
    AtTop outer (match x c.run with
      | .ok _ r => (some [], ⟨r, c.nextSite⟩)
      | .error (.fault e) r => (some [.runtime e], ⟨r, c.nextSite⟩)
      | .error .outOfFuel r => (none, ⟨r, c.nextSite⟩) : Outcome).2 := by
  have hr := h.runs hx
  cases hrun : x c.run with
  | ok a r =>
    rw [hrun] at hr
    exact hr
  | error e r =>
    rw [hrun] at hr
    cases e <;> exact hr

/-- After a tree was run the session is at its globals again, whatever became of it. -/
theorem AtTop.attempt (h : c.AtTop outer) (hx : Stationed .top x)
    (resolution : Option Resolution) (root : Root) :
    AtTop outer (c.attempt resolution root x).2 := by
  cases resolution with
  | none => exact h.ran hx
  | some r => exact (h.begin r.table root).ran hx

/-- Nothing that a session does leaves it elsewhere. -/
theorem atTop_invariant (outer : FrameId) : Invariant (AtTop outer) :=
  .of_runs (fun _ h => ⟨h.globals, h.current, h.log⟩) (fun table root h => h.begin table root)
    (fun fuel ss h => h.runs (traceProgram_stationed fuel ss))
    fun fuel e h => h.runs (traceExpression_stationed fuel e)

/-- A deed leaves the session at its globals, whatever becomes of it. -/
theorem perform_atTop (fuel : Nat) (deed : Deed) (h : c.AtTop outer) :
    AtTop outer (c.perform fuel deed).2 := by
  cases deed with
  | take step => exact (atTop_invariant outer).take fuel step c h
  | runLeniently resolved source =>
    have h' : AtTop outer ⟨c.run, (Program.parse (scanTokens source) c.nextSite).nextSite⟩ :=
      ⟨h.globals, h.current, h.log⟩
    exact h'.attempt (traceProgram_stationed fuel _) _ _
  | evaluateLeniently written resolved source =>
    unfold perform
    dsimp only
    obtain ⟨tree, errors, nextSite⟩ := Expr.parse (scanTokens source) c.nextSite
    have h' : AtTop outer ⟨c.run, nextSite⟩ := ⟨h.globals, h.current, h.log⟩
    cases tree with
    | none => exact h'
    | some e =>
      refine h'.attempt (Stationed.bind ?_ fun v => .pure (some v)) _ _
      cases written with
      | true => exact traceExpression_stationed fuel e
      | false => exact Task.trace_stationed fuel (.expression e) .top
  | prompt =>
    have h' : c.prompted.AtTop outer := ⟨h.globals, h.current, h.log⟩
    unfold perform
    dsimp only
    split
    next source _ => exact (atTop_invariant outer).take fuel (.line source) c.prompted h'
    next => exact h'

/-- Deeds in order leave the session at its globals, whatever becomes of each. -/
theorem performAll_atTop (deeds : Deeds) (h : c.AtTop outer) :
    AtTop outer (performAll deeds c) := by
  induction deeds generalizing c with
  | nil => exact h
  | cons d deeds ih => exact ih (perform_atTop d.1 d.2 h)

end Chronicle

/-- However a statement or an expression ends, be its names resolved or not, the machine is in the
scope in which it began, with the same globals, and knows the same distances. So whatever a session
was asked to do, and whatever became of it, it is at its globals, which stay the same frame; and at
each moment of it the current frame is the innermost one of those entered, or that of the globals
where a text is in no frame of its own. -/
theorem Session.scope_restored :
    (∀ fuel s, Restores (Eval.execute fuel s)) ∧ (∀ fuel e, Restores (Eval.evaluate fuel e)) ∧
    ∀ input output host (deeds : Deeds),
      (∀ s, (Session.start input output host).performAll deeds = some s →
        s.machine.current = s.machine.globals ∧
          s.machine.globals = (Session.start input output host).machine.globals) ∧
      Chronicle.AtTop (Session.start input output host).machine.globals
        (Chronicle.performAll deeds (Chronicle.start input output host)) := by
  refine ⟨fun fuel s => Task.run_restores fuel (.statement s),
    fun fuel e => Task.run_restores fuel (.expression e), fun input output host deeds => ?_⟩
  have htop := Chronicle.performAll_atTop deeds (Chronicle.start_atTop input output host)
  refine ⟨fun s hs => ?_, htop⟩
  obtain rfl := Chronicle.performAll_forget (c := .start input output host) hs
  exact ⟨htop.current, htop.globals⟩

/-- A text fails inside a block inside a call inside a block, and the next one declares a global. -/
theorem Session.scope_restored_failure :
    let deeds : Deeds := [(20, .take (.run "\x7b fun f() \x7b \x7b missing; \x7d \x7d f(); \x7d")),
      (20, .take (.run "var a = 1;"))]
    let s := Session.start ⟨[]⟩ {} ⟨fun _ => 0, fun _ => 0, 0, 0⟩
    (deeds.map fun d => (d.2.outcome d.1 s).map fun o => o.1.length) = [some 1, some 0] ∧
      ∃ s', s.performAll deeds = some s' ∧ s'.machine.current = s'.machine.globals ∧
        (s'.machine.store.binding? s'.machine.globals "a").isSome = true := by
  intro deeds s
  have hlast : ((s.performAll deeds).map fun s' =>
      (s'.machine.store.binding? s'.machine.globals "a").isSome) = some true := by decide +kernel
  obtain ⟨s', hs', hbound⟩ := Option.map_eq_some_iff.mp hlast
  exact ⟨by decide +kernel, s', hs', ((scope_restored.2.2 _ _ _ deeds).1 s' hs').1, hbound⟩

end Lox
