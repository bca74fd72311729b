import Lox.Proofs.Run.Constants

/-!
# Who made the frames

Every frame that a run remembers to be made for something was made at an earlier moment by a step
for just that (`Chronicle.frames_made`), and such a step is the making of a class, of a method or of
the frame of a block or of a call (`Mark.Performs`). What these three leave behind says where the
frame lies and what it binds, and for `this` and `super` this never changes
(`Chronicle.binding_kept`).
-/

namespace Lox

namespace Eval

open Exec

/-! ## What a run keeps whatever it does -/

/-- What steps, records, frames entered and trees begun do not take from a run. -/
structure Stable (I : Run → Prop) : Prop where
  took : ∀ {r : Run} around mark halt m, I r → I (r.took around mark halt m)
  record : ∀ {r : Run} around t result, I r → I (r.record around (.ends t result))
  atFrame : ∀ {r : Run} frame, I r → I (r.atFrame frame)
  begin : ∀ {r : Run} table root, I r → I (r.begin table root)

/-- However the computation ends, it keeps what holds of the run. -/
def Keeps (I : Run → Prop) {α : Type} (x : Traced α) : Prop :=
  ∀ r, I r → match x r with
    | .ok _ r' => I r'
    | .error _ r' => I r'

section Keeps

variable {I : Run → Prop} {α β : Type}

theorem Keeps.pure (a : α) : Keeps I (pure a : Traced α) :=
  fun _ h => h

theorem Keeps.bind {x : Traced α} {f : α → Traced β} (hx : Keeps I x) (hf : ∀ a, Keeps I (f a)) :
    Keeps I (x >>= f) := by
  intro r h
  have hr := hx r h
  show match EStateM.bind x f r with
    | .ok _ r' => I r'
    | .error _ r' => I r'
  unfold EStateM.bind
  cases hxr : x r with
  | ok a r' =>
    rw [hxr] at hr
    exact hf a r' hr
  | error e r' =>
    rw [hxr] at hr
    exact hr

theorem Keeps.ends {x : Traced α} (hx : Keeps I x) {r : Run} (h : I r) : I (endOf (x r)) := by
  have hr := hx r h
  cases hxr : x r with
  | ok a r' =>
    rw [hxr] at hr
    exact hr
  | error e r' =>
    rw [hxr] at hr
    exact hr

namespace Stable

variable (hI : Stable I)

include hI

theorem observe (around : Surroundings) (mark : Mark) (x : Exec α) :
    Keeps I (observe around mark x) := by
  intro r h
  unfold Eval.observe
  cases x r.machine with
  | ok a m => exact hI.took around mark none m h
  | error e m => exact hI.took around mark (some e) m h

theorem withinFrame {frame : FrameId} {x : Traced α} (hx : Keeps I x) :
    Keeps I (withinFrame frame x) := by
  intro r h
  have hr := hx _ (hI.atFrame frame h)
  unfold Eval.withinFrame
  cases hxr : x (r.atFrame frame) with
  | ok a r' =>
    rw [hxr] at hr
    exact hI.atFrame _ hr
  | error e r' =>
    rw [hxr] at hr
    exact hI.atFrame _ hr

theorem layer {sub : (t : Task) → Surroundings → Traced t.Result}
    (hsub : ∀ t around, Keeps I (sub t around)) (around : Surroundings) (l : Layer α) :
    Keeps I (l.trace sub around) := by
  induction l with
  | done a => exact .pure a
  | step x mark next ih => exact (hI.observe around mark x).bind ih
  | start t next ih => exact (hsub t around).bind ih
  | enter frame f t next ih =>
    refine Keeps.bind (fun r => ?_) ih
    exact hI.withinFrame (hsub t (around.enter frame f r.history.origins)) r

theorem task (fuel : Nat) (t : Task) (around : Surroundings) : Keeps I (t.trace fuel around) := by
  induction fuel generalizing t around with
  | zero => exact fun _ h => h
  | succ fuel ih =>
    refine (hI.layer ih (around.inside t) t.layer).bind fun result r h => ?_
    exact hI.record around t result h

theorem program (fuel : Nat) (ss : List Stmt) : Keeps I (traceProgram fuel ss) := by
  induction ss with
  | nil => exact .pure ()
  | cons s ss ih => exact (hI.task fuel (.statement s) .top).bind fun _ => ih

theorem expression (fuel : Nat) (e : Expr) : Keeps I (traceExpression fuel e) :=
  (hI.task fuel (.expression e) .top).bind fun v =>
    (hI.observe .top .nothing (writeLine v)).bind fun _ => .pure v

/-- What every step of a run keeps, every step of a session keeps. -/
theorem invariant : Chronicle.Invariant fun c => I c.run :=
  .of_runs (fun _ h => h) (fun table root h => hI.begin table root h)
    (fun fuel ss h => (hI.program fuel ss).ends h) fun fuel e h => (hI.expression fuel e).ends h

end Stable

end Keeps

/-! ## The moments at which frames are made -/

/-- At this moment a step makes the frame, for the region. -/
def Event.Makes (ev : Event) (frame : FrameId) (region : Region) : Prop :=
  ∃ mark halt m, ev.occurrence = .step mark halt m ∧ mark.region = some region ∧
    ev.machine.store.frames.size ≤ frame ∧ frame < m.store.frames.size

/-- All frames of the store that were made for something were made at one of the moments. -/
def MadeAt (past : List Event) (origins : Origins) (s : Store) : Prop :=
  ∀ frame < s.frames.size, ∀ region, origins.regions frame = some region →
    ∃ ev ∈ past, ev.Makes frame region

theorem MadeAt.mono {past past' : List Event} {origins : Origins} {s : Store}
    (h : MadeAt past origins s) (hpast : ∀ ev ∈ past, ev ∈ past') : MadeAt past' origins s := by
  intro frame hframe region hregion
  obtain ⟨ev, hev, hmakes⟩ := h frame hframe region hregion
  exact ⟨ev, hpast ev hev, hmakes⟩

/-- All frames were made at moments of the log, and at each moment all frames that there were at
earlier ones. -/
structure Run.Traceable (r : Run) : Prop where
  now : MadeAt r.history.log r.history.origins r.machine.store
  log : ∀ i ev, r.history.log[i]? = some ev →
    MadeAt (r.history.log.take i) ev.origins ev.machine.store

/-- A moment of the present is added to the log. -/
theorem Run.Traceable.logged {r : Run} (h : r.Traceable) {origins : Origins} {m : Machine}
    {ev : Event} (horigins : ev.origins = r.history.origins) (hmachine : ev.machine = r.machine)
    (hnow : MadeAt (r.history.log ++ [ev]) origins m.store) :
    Run.Traceable ⟨m, ⟨origins, r.history.log ++ [ev]⟩⟩ := by
  have hmoment : MadeAt r.history.log ev.origins ev.machine.store := by
    rw [horigins, hmachine]
    exact h.now
  exact ⟨hnow,
    log_concat (P := fun past ev => MadeAt past ev.origins ev.machine.store) h.log hmoment⟩

/-- Whatever a run does, its frames can be traced to the moments at which they were made. -/
theorem traceable_stable : Stable Run.Traceable where
  took {r} around mark halt m h := by
    refine h.logged rfl rfl fun frame hframe region hregion => ?_
    -- a step is remembered as the maker of just the frames that were not there before
    by_cases hold : frame < r.machine.store.frames.size
    · have hregion' : r.history.origins.regions frame = some region :=
        (if_pos hold).symm.trans hregion
      obtain ⟨ev, hev, hmakes⟩ := h.now frame hold region hregion'
      exact ⟨ev, List.mem_append_left _ hev, hmakes⟩
    · have hregion' : mark.region = some region := (if_neg hold).symm.trans hregion
      exact ⟨_, List.mem_append_right _ (List.mem_singleton_self _), mark, halt, m, rfl, hregion',
        Nat.not_lt.mp hold, hframe⟩
  record around t result h :=
    h.logged rfl rfl (h.now.mono fun _ hev => List.mem_append_left _ hev)
  atFrame frame h := ⟨h.now, h.log⟩
  begin table root h := ⟨h.now, h.log⟩

/-! ## What the makers of frames do -/

/-- What a step that may make frames does. -/
def Mark.Performs (tasks : List Task) : Mark → Machine → Option Halt → Machine → Prop
  | .members d, m, halt, m' =>
    halt = none ∧ ∃ superclass, declareClass d superclass m = .ok () m'
  | .method f, m, halt, m' => halt = none ∧ ∃ receiver bound, Eval.bind f receiver m = .ok bound m'
  | .frame region, m, halt, m' => (∃ body, region = .block body) ∨
    halt = none ∧ ∃ f arguments outer frame, tasks = .invoke f arguments :: outer ∧
      region = .call f.declaration ∧ callFrame f arguments m = .ok frame m'
  | .nothing, _, _, _ | .refers _, _, _, _ | .function, _, _, _ | .declares _, _, _, _ => True

/-- If a step happens at this moment, it does what its mark says. -/
def Event.Performs (ev : Event) : Prop :=
  ∀ mark halt m, ev.occurrence = .step mark halt m →
    mark.Performs ev.around.tasks ev.machine halt m

section Performs

variable {tasks : List Task} {mark : Mark} {α : Type}

/-- A step that makes no frame. -/
theorem performs_plain (hmark : mark.region = none) (x : Exec α) :
    Does x (mark.Performs tasks) := by
  intro m
  cases mark with
  | nothing | refers e | function | declares s => cases x m <;> trivial
  | _ => cases hmark

theorem StoringAction.performs {x : Exec α} (h : StoringAction tasks x mark) :
    Does x (mark.Performs tasks) := by
  cases h with
  | members d superclass =>
    intro m
    obtain ⟨c, n, -, hrun⟩ := declareClass_ok d superclass m
    rw [hrun]
    exact ⟨rfl, superclass, hrun⟩
  | method f receiver => exact fun _ => ⟨rfl, receiver, _, rfl⟩
  | block body => exact fun _ => .inl ⟨body, rfl⟩
  | call f arguments => exact fun _ => .inr ⟨rfl, f, arguments, _, _, rfl, rfl, rfl⟩
  | _ => exact performs_plain rfl _

/-- An action does what its mark says of the frames that it makes. -/
theorem Action.performs {x : Exec α} (h : Action tasks x mark) : Does x (mark.Performs tasks) := by
  cases h with
  | quiet h => exact performs_plain (by cases h <;> rfl) x
  | storing h => exact h.performs
  | assign site name e value => exact performs_plain rfl _
  | input keyword target value => exact performs_plain rfl _

/-- The steps of a session do what their marks say of the frames that they make. -/
theorem performs_law : LogLaw (Leads fun tasks mark => mark.Performs tasks) :=
  .leads (Task.layer_takes Action.performs) fun _ _ _ _ _ => trivial

end Performs

/-! ## What they leave behind -/

section Leave

variable {d : ClassDecl} {f bound : Function} {receiver : Value} {arguments : List Value}
variable {frame : FrameId} {m m' : Machine}

/-- A class without a superclass makes no frame. -/
theorem declareClass_none (h : declareClass d none m = .ok () m') :
    m'.store.frames.size = m.store.frames.size := by
  obtain ⟨c, n, -, hrun⟩ := declareClass_ok d none m
  cases hrun.symm.trans h
  exact (Store.define_size ..).trans (Store.define_size ..)

/-- A class with a superclass makes one frame, inside the current one, that binds `super` to it. -/
theorem declareClass_frame {parent : Class} (h : declareClass d (some parent) m = .ok () m')
    (hname : d.name.lexeme ≠ "super") :
    m'.store.frames.size = m.store.frames.size + 1 ∧
      m'.store.parent? m.store.frames.size = some m.current ∧
      m'.store.binding? m.store.frames.size "super" = some ⟨.cls parent, false⟩ := by
  obtain ⟨c, n, -, hrun⟩ := declareClass_ok d (some parent) m
  cases hrun.symm.trans h
  -- the class is bound to its name twice, before and after the frame is made
  let s : Store := m.store.define m.current d.name.lexeme .nil false
  let s' : Store := (s.newFrame (some m.current)).2.define s.frames.size "super" (.cls parent) false
  have hsize : s.frames.size = m.store.frames.size := Store.define_size ..
  rw [← hsize]
  refine ⟨?_, ?_, ?_⟩
  · show (Store.define _ _ _ _ _).frames.size = _
    rw [Store.define_size]
    exact (Store.define_size ..).trans (Store.newFrame_size ..)
  · refine (Store.define_parent? ..).trans ?_
    exact (Store.define_parent? ..).trans (Store.newFrame_parent?_new ..)
  · refine (Store.define_binding? ..).trans ((if_neg fun heq => hname heq.2.1).trans ?_)
    show s'.binding? _ _ = _
    refine (Store.define_binding? ..).trans (if_pos ⟨rfl, rfl, ?_⟩)
    exact Nat.lt_of_lt_of_eq (Nat.lt_succ_self _) (Store.newFrame_size ..).symm

/-- A class is what its name is bound to. -/
theorem declareClass_binding {superclass : Option Class}
    (h : declareClass d superclass m = .ok () m') (hcurrent : m.current < m.store.frames.size) :
    ∃ made, m'.store.binding? m.current d.name.lexeme = some ⟨.cls made, false⟩ ∧
      made.superclass = superclass := by
  obtain ⟨c, n, hc, hrun⟩ := declareClass_ok d superclass m
  cases hrun.symm.trans h
  refine ⟨c, ?_, hc⟩
  refine (Store.define_binding? ..).trans (if_pos ⟨rfl, rfl, ?_⟩)
  refine Nat.lt_of_lt_of_le hcurrent ?_
  have hsize := memberStore_size superclass
    { m with store := m.store.define m.current d.name.lexeme .nil false }
  rwa [Store.define_size] at hsize

/-- A method is made in a frame of its own, around which the member was made, that binds `this` to
the receiver. -/
theorem bind_frame (h : Eval.bind f receiver m = .ok bound m') :
    bound.declaration = f.declaration ∧ bound.closure = m.store.frames.size ∧
      m'.store.frames.size = m.store.frames.size + 1 ∧
      m'.store.parent? m.store.frames.size = some f.closure ∧
      m'.store.binding? m.store.frames.size "this" = some ⟨receiver, false⟩ := by
  cases h
  refine ⟨rfl, rfl, ?_, ?_, ?_⟩
  · exact (Store.define_size ..).trans (Store.newFrame_size ..)
  · exact (Store.define_parent? ..).trans (Store.newFrame_parent?_new ..)
  · refine (Store.define_binding? ..).trans (if_pos ⟨rfl, rfl, ?_⟩)
    exact Nat.lt_of_lt_of_eq (Nat.lt_succ_self _) (Store.newFrame_size ..).symm

/-- A frame of a call lies inside the closure of the function. -/
theorem callFrame_frame (h : callFrame f arguments m = .ok frame m') :
    frame = m.store.frames.size ∧ m'.store.frames.size = m.store.frames.size + 1 ∧
      m'.store.parent? m.store.frames.size = some f.closure := by
  cases h
  refine ⟨rfl, ?_, ?_⟩
  · exact (bindAll_size ..).trans (Store.newFrame_size ..)
  · exact (bindAll_parent? ..).trans (Store.newFrame_parent?_new ..)

end Leave

/-! ## The makers of frames of each kind -/

namespace Event.Makes

variable {ev : Event} {frame : FrameId}

/-- The frame of a superclass is made when a class with a superclass is. -/
theorem superclass {d : ClassDecl} (h : ev.Makes frame (.superclass d)) (hperforms : ev.Performs)
    (hname : ∀ halt m, ev.occurrence = .step (.members d) halt m → d.name.lexeme ≠ "super") :
    ∃ parent after, ev.occurrence = .step (.members d) none after ∧
      declareClass d (some parent) ev.machine = .ok () after ∧
      frame = ev.machine.store.frames.size := by
  obtain ⟨mark, halt, m, hstep, hregion, hle, hlt⟩ := h
  have hmark := hperforms mark halt m hstep
  cases mark with
  | members d' =>
    cases hregion
    obtain ⟨rfl, _ | parent, hrun⟩ := hmark
    · rw [declareClass_none hrun] at hlt
      exact absurd hle (Nat.not_le.mpr hlt)
    · rw [(declareClass_frame hrun (hname none m hstep)).1] at hlt
      exact ⟨parent, m, hstep, hrun, Nat.le_antisymm (Nat.le_of_lt_succ hlt) hle⟩
  | frame region =>
    cases hregion
    rcases hmark with ⟨_, hblock⟩ | ⟨_, _, _, _, _, _, hcall, _⟩
    · cases hblock
    · cases hcall
  | _ => cases hregion

/-- The frame of a receiver is made when a member is taken as a method. -/
theorem receiver {d : FunctionDecl} (h : ev.Makes frame (.receiver d)) (hperforms : ev.Performs) :
    ∃ f receiver method after, ev.occurrence = .step (.method f) none after ∧
      f.declaration = d ∧ Eval.bind f receiver ev.machine = .ok method after ∧
      frame = ev.machine.store.frames.size := by
  obtain ⟨mark, halt, m, hstep, hregion, hle, hlt⟩ := h
  have hmark := hperforms mark halt m hstep
  cases mark with
  | method f =>
    cases hregion
    obtain ⟨rfl, receiver, method, hrun⟩ := hmark
    rw [(bind_frame hrun).2.2.1] at hlt
    exact ⟨f, receiver, method, m, hstep, rfl, hrun, Nat.le_antisymm (Nat.le_of_lt_succ hlt) hle⟩
  | frame region =>
    cases hregion
    rcases hmark with ⟨_, hblock⟩ | ⟨_, _, _, _, _, _, hcall, _⟩
    · cases hblock
    · cases hcall
  | _ => cases hregion

/-- The frame of a call is made when a function is called. -/
theorem call {d : FunctionDecl} (h : ev.Makes frame (.call d)) (hperforms : ev.Performs) :
    ∃ f arguments outer after, ev.around.tasks = .invoke f arguments :: outer ∧
      ev.occurrence = .step (.frame (.call d)) none after ∧ f.declaration = d ∧
      callFrame f arguments ev.machine = .ok frame after := by
  obtain ⟨mark, halt, m, hstep, hregion, hle, hlt⟩ := h
  have hmark := hperforms mark halt m hstep
  cases mark with
  | frame region =>
    cases hregion
    rcases hmark with ⟨_, hblock⟩ | ⟨rfl, f, arguments, outer, made, htasks, hcall, hrun⟩
    · cases hblock
    · cases hcall
      obtain ⟨hmade, hsize, _⟩ := callFrame_frame hrun
      rw [hsize] at hlt
      obtain rfl : frame = made :=
        (Nat.le_antisymm (Nat.le_of_lt_succ hlt) hle).trans hmade.symm
      exact ⟨f, arguments, outer, m, htasks, hstep, rfl, hrun⟩
  | _ => cases hregion

end Event.Makes

/-! ## From one moment to another -/

section Leads

variable {Q : List Task → Mark → Machine → Option Halt → Machine → Prop} {s s' : Store}
variable {log : List Event} {ev : Event} {mark : Mark} {halt : Option Halt} {m : Machine}

/-- A law that a log obeys from store to store is obeyed by each step in it. -/
theorem Leads.step (h : Leads Q s log s') (hev : ev ∈ log)
    (hstep : ev.occurrence = .step mark halt m) : Q ev.around.tasks mark ev.machine halt m := by
  obtain ⟨before, after, rfl⟩ := List.append_of_mem hev
  obtain ⟨_, _, _, hrest⟩ := append_iff.mp h
  rw [hstep] at hrest
  exact hrest.1

/-- What happened from a step at an earlier moment on. -/
theorem Leads.between (h : Leads Q s log s') {i : Nat} (hi : log[i]? = some ev) {past : Event}
    (hpast : past ∈ log.take i) (hstep : past.occurrence = .step mark halt m) :
    ∃ evs, Leads Q m.store evs ev.machine.store ∧ ∀ ev' ∈ evs, ev' ∈ log := by
  have hstore : (log.map (fun ev => ev.machine.store) ++ [s'])[i]? = some ev.machine.store := by
    rw [List.getElem?_append_left, List.getElem?_map, hi]
    · rfl
    · rw [List.length_map]
      exact (List.getElem?_eq_some_iff.mp hi).1
  obtain ⟨before, evs, hsplit⟩ := List.append_of_mem hpast
  have hlead := (h.at hstore).1
  rw [hsplit] at hlead
  obtain ⟨_, _, _, hrest⟩ := append_iff.mp hlead
  rw [hstep] at hrest
  refine ⟨evs, hrest.2, fun ev' hev' => List.mem_of_mem_take (i := i) ?_⟩
  rw [hsplit]
  exact List.mem_append_right _ (List.mem_cons_of_mem _ hev')

end Leads

end Eval

open Eval

namespace Chronicle

variable (input : Input) (output : Output) (host : Host) (fuel : Nat) (steps : List Step)

/-- Every frame that there is at a moment, made for something, was made for it at an earlier
moment. -/
theorem frames_made {i : Nat} {ev : Event}
    (hi : (takeAll fuel steps (start input output host)).run.history.log[i]? = some ev) :
    MadeAt ((takeAll fuel steps (start input output host)).run.history.log.take i) ev.origins
      ev.machine.store := by
  have hstart : (start input output host).run.Traceable :=
    ⟨fun _ _ _ hregion => (nomatch hregion), fun _ _ h => (nomatch h)⟩
  exact (traceable_stable.invariant.takeAll fuel steps _ hstart).log i ev hi

/-- What the steps did that made frames. -/
theorem steps_perform {ev : Event}
    (hev : ev ∈ (takeAll fuel steps (start input output host)).run.history.log) : ev.Performs := by
  intro mark halt m hstep
  obtain ⟨evs, hlog, hevs⟩ := takeAll_logs performs_law fuel steps (start input output host)
  rw [hlog] at hev
  exact hevs.step hev hstep

/-- What a frame binds `this` and `super` to stays what it was when a step had made the frame. -/
theorem binding_kept {i : Nat} {ev past : Event}
    (hi : (takeAll fuel steps (start input output host)).run.history.log[i]? = some ev)
    (hpast : past ∈ (takeAll fuel steps (start input output host)).run.history.log.take i)
    {mark : Eval.Mark} {halt : Option Halt} {m : Machine}
    (hstep : past.occurrence = .step mark halt m) {frame : FrameId}
    (hframe : frame < m.store.frames.size) {name : String} (hname : name ∈ ["this", "super"]) :
    ev.machine.store.binding? frame name = m.store.binding? frame name := by
  obtain ⟨evs, hevs, hmem⟩ := (steps_lead input output host fuel steps).between hi hpast hstep
  have hplain := fun ev' (hev' : ev' ∈ evs) =>
    log_plain input output host fuel steps (hmem ev' hev') hname
  rcases hevs.stays hframe (.inr fun ev' hev' => (hplain ev' hev').1) with
    hsame | ⟨ev', hev', hdeclares⟩
  · exact hsame
  · exact absurd hdeclares ((hplain ev' hev').2 frame)

end Chronicle

end Lox
