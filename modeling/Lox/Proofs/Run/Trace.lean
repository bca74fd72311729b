import Lox.Proofs.Run.Layer

/-!
# Runs that remember

`Task.trace` runs a task as `Task.run` does and keeps a history beside the machine: what each frame
was made for, inside which frames each function was made, and a log of the steps taken and of the
tasks that ended. The history never reads the parents of the frames nor the closures of the
functions, so it can be compared with them. `Task.trace_erases` proves that the machine does not
depend on the history.
-/

namespace Lox.Eval

open Exec

/-! ## Histories -/

/-- Where a task runs. -/
structure Surroundings where
  /-- The tasks at work, innermost first. -/
  tasks : List Task
  /-- The frames entered, innermost first, up to the globals, which are not among them. -/
  frames : List FrameId

/-- The surroundings of a program. -/
def Surroundings.top : Surroundings :=
  ⟨[], []⟩

/-- The surroundings of the tasks that a task starts. -/
def Surroundings.inside (t : Task) (around : Surroundings) : Surroundings :=
  { around with tasks := t :: around.tasks }

/-- A tree that is run on its own. -/
inductive Root where
  | program (ss : List Stmt)
  | expression (e : Expr)

/-- Where frames and functions come from, and the trees run so far. -/
structure Origins where
  /-- What a frame was made for. -/
  regions : FrameId → Option Region
  /-- The frames around a function when it was made, by its serial number. -/
  homes : Nat → List FrameId
  roots : List Root

/-- What happens at a moment. -/
inductive Occurrence where
  /-- A step is taken that leaves the machine in this state, and what stops the run if anything
  does. -/
  | step (mark : Mark) (halt : Option Halt) (after : Machine)
  /-- The task ends with this result. -/
  | ends (t : Task) (result : t.Result)

/-- A moment of a run, with the machine as it then was. -/
structure Event where
  around : Surroundings
  origins : Origins
  machine : Machine
  occurrence : Occurrence

/-- What is remembered of a run. -/
structure History where
  origins : Origins
  /-- The moments so far, oldest first. -/
  log : List Event

/-- What holds between each moment of a log and those before it holds in the log with one more
moment, if it holds between that one and the log so far. -/
theorem log_concat {P : List Event → Event → Prop} {log : List Event} {ev : Event}
    (h : ∀ (i : Nat) (past : Event), log[i]? = some past → P (log.take i) past) (hev : P log ev)
    (i : Nat) (past : Event) (hi : (log ++ [ev])[i]? = some past) :
    P ((log ++ [ev]).take i) past := by
  have hle : i ≤ log.length := by
    have hlt := (List.getElem?_eq_some_iff.mp hi).1
    rw [List.length_append] at hlt
    exact Nat.le_of_lt_succ hlt
  rcases Nat.lt_or_eq_of_le hle with hlt | rfl
  · rw [List.getElem?_append_left hlt] at hi
    rw [List.take_append_of_le_length hle]
    exact h i past hi
  · obtain rfl : ev = past := Option.some.inj (List.getElem?_concat_length.symm.trans hi)
    rw [List.take_left]
    exact hev

/-- A machine with the history that led to its state. -/
structure Run where
  machine : Machine
  history : History

/-- A computation that keeps the history. -/
abbrev Traced := EStateM Halt Run

/-- The run that a computation ends with, however it ends. -/
def endOf {α : Type} : EStateM.Result Halt Run α → Run
  | .ok _ r => r
  | .error _ r => r

/-- The region of the frames that a step makes. -/
def Mark.region : Mark → Option Region
  | .frame region => some region
  | .members d => some (.superclass d)
  | .method f => some (.receiver f.declaration)
  | _ => none

/-- The frames inside which a step makes its frames and functions. -/
def Mark.home (origins : Origins) (around : Surroundings) : Mark → List FrameId
  | .method f => origins.homes f.serial
  | _ => around.frames

/-- The frame that a step made, if it made one. -/
def newFrames (before after : Store) : List FrameId :=
  if before.frames.size < after.frames.size then [before.frames.size] else []

/-- The origins after a step. -/
def Origins.after (origins : Origins) (around : Surroundings) (mark : Mark)
    (before after : Store) : Origins where
  regions frame := if frame < before.frames.size then origins.regions frame else mark.region
  homes serial :=
    if serial < before.nextSerial then origins.homes serial
    else newFrames before after ++ mark.home origins around
  roots := origins.roots

namespace Run

/-- The run with one more moment in its log. -/
def logged (ev : Event) (r : Run) : Run :=
  { r with history.log := r.history.log ++ [ev] }

/-- Adds to the log what happens now. -/
def record (around : Surroundings) (what : Occurrence) (r : Run) : Run :=
  r.logged ⟨around, r.history.origins, r.machine, what⟩

/-- The run after a step that left the machine in a state. -/
def stepTo (around : Surroundings) (mark : Mark) (m : Machine) (r : Run) : Run where
  machine := m
  history :=
    { r.history with origins := r.history.origins.after around mark r.machine.store m.store }

/-- The run after a step that left the machine in a state, with the step in its log. -/
def took (around : Surroundings) (mark : Mark) (halt : Option Halt) (m : Machine) (r : Run) : Run :=
  (r.stepTo around mark m).logged ⟨around, r.history.origins, r.machine, .step mark halt m⟩

/-- The run with another current frame. -/
def atFrame (frame : FrameId) (r : Run) : Run :=
  { r with machine.current := frame }

end Run

/-- A step with its history. -/
def observe {α : Type} (around : Surroundings) (mark : Mark) (x : Exec α) : Traced α := fun r =>
  match x r.machine with
  | .ok a m => .ok a (r.took around mark none m)
  | .error e m => .error e (r.took around mark (some e) m)

/-- The surroundings inside a frame that a function or a block has for itself. -/
def Surroundings.enter (frame : FrameId) (f : Option Function) (origins : Origins)
    (around : Surroundings) : Surroundings where
  tasks := around.tasks
  frames :=
    match f with
    | some f => frame :: origins.homes f.serial
    | none => frame :: around.frames

/-- Runs a computation with `frame` as the current one, as `Exec.within` does. -/
def withinFrame {α : Type} (frame : FrameId) (x : Traced α) : Traced α := fun r =>
  match x (r.atFrame frame) with
  | .ok a r' => .ok a (r'.atFrame r.machine.current)
  | .error e r' => .error e (r'.atFrame r.machine.current)

/-- A layer run with its history, given how tasks are run. -/
def Layer.trace {α : Type} (sub : (t : Task) → Surroundings → Traced t.Result)
    (around : Surroundings) : Layer α → Traced α
  | .done a => pure a
  | .step x mark next => observe around mark x >>= fun b => (next b).trace sub around
  | .start t next => sub t around >>= fun a => (next a).trace sub around
  | .enter frame f t next =>
    (fun r => withinFrame frame (sub t (around.enter frame f r.history.origins)) r) >>= fun a =>
      (next a).trace sub around

/-- A task run with its history. -/
def Task.trace : Nat → (t : Task) → Surroundings → Traced t.Result
  | 0, _, _ => throw .outOfFuel
  | fuel + 1, t, around => do
    let result ← t.layer.trace (Task.trace fuel) (around.inside t)
    modify fun r => r.record around (.ends t result)
    return result

/-! ## The history does not affect the machine -/

/-- The computation does to the machine what the other one does. -/
def Erases {α : Type} (x : Traced α) (y : Exec α) : Prop :=
  ∀ r, match x r with
    | .ok a r' => y r.machine = .ok a r'.machine
    | .error e r' => y r.machine = .error e r'.machine

theorem Erases.bind {α β : Type} {x : Traced α} {y : Exec α} {f : α → Traced β}
    {g : α → Exec β} (hx : Erases x y) (hf : ∀ a, Erases (f a) (g a)) :
    Erases (x >>= f) (y >>= g) := by
  intro r
  have hr := hx r
  show match EStateM.bind x f r with
    | .ok a r' => EStateM.bind y g r.machine = .ok a r'.machine
    | .error e r' => EStateM.bind y g r.machine = .error e r'.machine
  unfold EStateM.bind
  cases hxr : x r with
  | ok a r' =>
    rw [hxr] at hr
    rw [show y r.machine = .ok a r'.machine from hr]
    exact hf a r'
  | error e r' =>
    rw [hxr] at hr
    rw [show y r.machine = .error e r'.machine from hr]

theorem observe_erases {α : Type} (around : Surroundings) (mark : Mark) (x : Exec α) :
    Erases (observe around mark x) x := by
  intro r
  unfold observe
  cases x r.machine <;> rfl

theorem withinFrame_erases {α : Type} {frame : FrameId} {x : Traced α} {y : Exec α}
    (h : Erases x y) : Erases (withinFrame frame x) (within frame y) := by
  intro r
  have hr := h (r.atFrame frame)
  unfold withinFrame within
  cases hx : x (r.atFrame frame) with
  | ok a r' =>
    rw [hx] at hr
    rw [show y { r.machine with current := frame } = .ok a r'.machine from hr]
    rfl
  | error e r' =>
    rw [hx] at hr
    rw [show y { r.machine with current := frame } = .error e r'.machine from hr]
    rfl

theorem Layer.trace_erases {α : Type} {sub : (t : Task) → Surroundings → Traced t.Result}
    {plain : (t : Task) → Exec t.Result} (hsub : ∀ t around, Erases (sub t around) (plain t))
    (around : Surroundings) (l : Layer α) : Erases (l.trace sub around) (l.run plain) := by
  induction l with
  | done a => exact fun r => rfl
  | step x mark next ih => exact (observe_erases around mark x).bind ih
  | start t next ih => exact (hsub t around).bind ih
  | enter frame f t next ih =>
    refine Erases.bind (fun r => ?_) ih
    exact withinFrame_erases (hsub t (around.enter frame f r.history.origins)) r

/-- A task does the same to the machine with its history as without. -/
theorem Task.trace_erases (fuel : Nat) (t : Task) (around : Surroundings) :
    Erases (t.trace fuel around) (t.run fuel) := by
  induction fuel generalizing t around with
  | zero =>
    intro r
    rw [run_zero]
    rfl
  | succ fuel ih =>
    rw [run_succ, ← bind_pure (t.layer.run (Task.run fuel))]
    refine (Layer.trace_erases ih (around.inside t) t.layer).bind fun result => ?_
    exact fun r => rfl

end Lox.Eval
