import Lox.Proofs.Proper.Steps
import Lox.Proofs.Run.Chronicle

/-!
# Runs keep machines proper

The contract `upkeep P`: from a proper machine, with proper data in all tasks at work, a run leads
to a proper machine and what a task gives is proper. The moments that the run adds to its log lead
from the one machine to the other (`Course`): each is proper, an error that stops a step names a
token of which `P` holds, and input is used only where an `input` statement reads a line. Names need
not be resolved for this.
-/

namespace Lox.Eval

open Exec

/-! ## Tasks -/

/-- What the task works on is proper. -/
def Task.Proper (P : Token → Prop) (s : Store) : Task → Prop
  | .statement st => st.Names P
  | .statements ss => Stmt.NamesAll P ss
  | .rounds condition body increment =>
    condition.Names P ∧ body.Names P ∧ Expr.NamesOption P increment
  | .clause d => d.Names P
  | .expression e => e.Names P
  | .optional e => Expr.NamesOption P e
  | .expressions es => Expr.NamesAll P es
  | .property f => f.Proper P s
  | .objectProperty o name => o.cls.Proper P s ∧ P name
  | .call callee paren arguments =>
    callee.Proper P s ∧ P paren ∧ ∀ v ∈ arguments, v.Proper P s
  | .invoke f arguments => f.Proper P s ∧ ∀ v ∈ arguments, v.Proper P s

/-- What the task gives is proper. -/
def Task.Gives (P : Token → Prop) (s : Store) : (t : Task) → t.Result → Prop
  | .statement _, flow | .statements _, flow | .rounds _ _ _, flow => flow.Proper P s
  | .clause _, superclass => ∀ c ∈ superclass, c.Proper P s
  | .expressions _, values => ∀ v ∈ values, v.Proper P s
  | .expression _, v | .optional _, v | .property _, v | .objectProperty _ _, v | .call _ _ _, v
  | .invoke _ _, v => v.Proper P s

section Tasks

variable {P : Token → Prop} {s s' : Store}

/-- What a task works on stays proper as the store grows. -/
theorem Task.Proper.grows {t : Task} (h : t.Proper P s) (hs : s.Grows s') : t.Proper P s' := by
  cases t with
  | property f => exact Function.Proper.grows h hs
  | objectProperty o name => exact ⟨h.1.grows hs, h.2⟩
  | call callee paren arguments =>
    exact ⟨h.1.grows hs, h.2.1, fun v hv => (h.2.2 v hv).grows hs⟩
  | invoke f arguments => exact ⟨h.1.grows hs, fun v hv => (h.2 v hv).grows hs⟩
  | _ => exact h

end Tasks

/-! ## Moments -/

/-- Keyword and target of an `input` statement. -/
def Task.input? : Task → Option (Token × Expr)
  | .statement (.input keyword target) => some (keyword, target)
  | _ => none

/-- The `input` statement for which a step reads a line. -/
def Mark.reading? (around : Surroundings) : Mark → Option (Token × Expr)
  | .nothing => around.tasks.head?.bind Task.input?
  | _ => none

namespace Event

/-- The `input` statement for which a line is read at this moment. -/
def reading? (ev : Event) : Option (Token × Expr) :=
  match ev.occurrence with
  | .step mark _ _ => mark.reading? ev.around
  | .ends _ _ => none

/-- The machine after the moment. -/
def after (ev : Event) : Machine :=
  match ev.occurrence with
  | .step _ _ m => m
  | .ends _ _ => ev.machine

/-- The step that reads a line leaves the machine as reading does, and is stopped if that is. -/
def Reads (ev : Event) (keyword : Token) : Prop :=
  match (takeLine >>= typedValue keyword) ev.machine with
  | .ok _ m => ev.occurrence = .step .nothing none m
  | .error halt m => ev.occurrence = .step .nothing (some halt) m

/-- Machine, tasks and results are proper, an error names a token of which `P` holds, and input is
used only to read a line. -/
structure Proper (P : Token → Prop) (ev : Event) : Prop where
  machine : ev.machine.Proper P
  tasks : ∀ t ∈ ev.around.tasks, t.Proper P ev.machine.store
  after : ev.machine.Follows P ev.after
  fault : ∀ mark halt m, ev.occurrence = .step mark (some halt) m → halt.Names P
  result : ∀ t a, ev.occurrence = .ends t a → t.Gives P ev.machine.store a
  reads : ∀ keyword target, ev.reading? = some (keyword, target) → ev.Reads keyword
  silent : ev.reading? = none → ev.after.input = ev.machine.input

end Event

/-- The machines differ at most in their current frames. -/
def Moved (m m' : Machine) : Prop :=
  ∃ frame, m' = { m with current := frame }

/-- The moments lead from the one machine to the other, each of them proper, while these are the
trees run so far. -/
def Course (P : Token → Prop) (roots : List Root) (m : Machine) : List Event → Machine → Prop
  | [], m' => Moved m m'
  | ev :: evs, m' =>
    Moved m ev.machine ∧ ev.origins.roots = roots ∧ ev.Proper P ∧ Course P roots ev.after evs m'

theorem Moved.refl (m : Machine) : Moved m m :=
  ⟨m.current, rfl⟩

/-- Machines move to another frame and to a further one. -/
theorem Moved.trans {m m' m'' : Machine} (h : Moved m m') (h' : Moved m' m'') : Moved m m'' := by
  obtain ⟨frame, rfl⟩ := h
  obtain ⟨frame', rfl⟩ := h'
  exact ⟨frame', rfl⟩

section Course

variable {P : Token → Prop} {roots : List Root} {m m' m'' : Machine} {evs evs' : List Event}

/-- Moving before the first moment does not matter. -/
theorem Course.moved (h : Course P roots m' evs m'') (hm : Moved m m') :
    Course P roots m evs m'' := by
  cases evs with
  | nil => exact hm.trans h
  | cons ev evs => exact ⟨hm.trans h.1, h.2⟩

/-- A course goes on by another one. -/
theorem Course.append (h : Course P roots m evs m') (h' : Course P roots m' evs' m'') :
    Course P roots m (evs ++ evs') m'' := by
  induction evs generalizing m with
  | nil => exact h'.moved h
  | cons ev evs ih => exact ⟨h.1, h.2.1, h.2.2.1, ih h.2.2.2⟩

theorem Course.refl (m : Machine) : Course P roots m [] m :=
  Moved.refl m

end Course

/-! ## The contract -/

/-- Run and tasks at work are in order for the next step. -/
structure Ready (P : Token → Prop) (around : Surroundings) (r : Run) : Prop where
  machine : r.machine.Proper P
  tasks : ∀ t ∈ around.tasks, t.Proper P r.machine.store

/-- The run has gone on in proper order. -/
structure Run.Upkept (P : Token → Prop) (r r' : Run) : Prop where
  follows : r.machine.Follows P r'.machine
  roots : r'.history.origins.roots = r.history.origins.roots
  course : ∃ evs, r'.history.log = r.history.log ++ evs ∧
    Course P r.history.origins.roots r.machine evs r'.machine

/-- Proper machines stay proper, whatever is run. -/
def upkeep (P : Token → Prop) : Contract where
  View := Unit
  kept := Run.Upkept P
  halted := Run.Upkept P
  pre _ t around r := Ready P (around.inside t) r
  post _ t _ _ a r' := t.Gives P r'.machine.store a

variable {P : Token → Prop} {around : Surroundings} {r r' r'' : Run}

/-- A proper run keeps up with itself. -/
theorem Run.Upkept.refl (h : r.machine.Proper P) : Run.Upkept P r r :=
  ⟨.refl h, rfl, [], (List.append_nil _).symm, .refl _⟩

/-- A run goes on in order in two stretches. -/
theorem Run.Upkept.trans (h : Run.Upkept P r r') (h' : Run.Upkept P r' r'') :
    Run.Upkept P r r'' := by
  obtain ⟨evs, hlog, hcourse⟩ := h.course
  obtain ⟨evs', hlog', hcourse'⟩ := h'.course
  refine ⟨h.follows.trans h'.follows, h'.roots.trans h.roots, evs ++ evs', ?_, ?_⟩
  · rw [hlog', hlog, List.append_assoc]
  · rw [h.roots] at hcourse'
    exact hcourse.append hcourse'

/-- Going on in order is the same for a run in parts. -/
theorem upkeep_lawful : (upkeep P).Lawful where
  trans h h' := h.trans h'
  halt h h' := h.trans h'
  begin_kept h := .refl h.machine
  begin_halted h := .refl h.machine

/-- Tasks stay ready while the run goes on in order. -/
theorem Ready.grows (h : Ready P around r) (hr : Run.Upkept P r r') : Ready P around r' :=
  ⟨hr.follows.proper, fun t ht => (h.tasks t ht).grows hr.follows.grows⟩

/-- A task that works on proper data may start. -/
theorem Ready.cons {t : Task} (h : Ready P around r) (ht : t.Proper P r.machine.store) :
    Ready P (around.inside t) r := by
  refine ⟨h.machine, fun t' ht' => ?_⟩
  rcases List.mem_cons.mp ht' with rfl | ht'
  · exact ht
  · exact h.tasks t' ht'

/-- The tasks around a task are ready with it. -/
theorem Ready.tail {t : Task} (h : Ready P (around.inside t) r) : Ready P around r :=
  ⟨h.machine, fun t' ht' => h.tasks t' (List.mem_cons_of_mem _ ht')⟩

/-- A step is logged that leaves a proper machine. -/
theorem Ready.took (h : Ready P around r) {mark : Mark} {halt : Option Halt} {m : Machine}
    (hm : r.machine.Follows P m) (hhalt : ∀ e ∈ halt, e.Names P)
    (hreads : ∀ keyword target, mark.reading? around = some (keyword, target) →
      Event.Reads ⟨around, r.history.origins, r.machine, .step mark halt m⟩ keyword)
    (hsilent : mark.reading? around = none → m.input = r.machine.input) :
    Run.Upkept P r (r.took around mark halt m) := by
  refine ⟨hm, rfl, _, rfl, .refl _, rfl, ⟨h.machine, h.tasks, hm, ?_, ?_, hreads, hsilent⟩, .refl _⟩
  · rintro _ halt' _ ⟨⟩
    exact hhalt halt' rfl
  · rintro _ _ ⟨⟩

/-- The end of a task is logged. -/
theorem Ready.recorded {t : Task} {a : t.Result} (h : Ready P around r)
    (ha : t.Gives P r.machine.store a) : Run.Upkept P r (r.record around (.ends t a)) := by
  refine ⟨.refl h.machine, rfl, _, rfl, .refl _, rfl,
    ⟨h.machine, h.tasks, .refl h.machine, ?_, ?_, ?_, fun _ => rfl⟩, .refl _⟩
  · rintro _ _ _ ⟨⟩
  · rintro _ _ ⟨⟩
    exact ha
  · rintro _ _ ⟨⟩

/-! ## Rules for layers -/

section Rules

variable {α β : Type} {next : β → Layer α} {Q : α → Run → Prop} {R : β → Machine → Prop}
variable {x : Exec β} {mark : Mark}

/-- A step that leaves input alone. -/
theorem step_meets (h : Ready P around r) (hplain : mark.reading? around = none)
    (hx : Tends P x r.machine R)
    (hnext : ∀ b r', Ready P around r' → r.machine.store.Grows r'.machine.store → R b r'.machine →
      (next b).Meets (upkeep P) around Q r') :
    (Layer.step x mark next).Meets (upkeep P) around Q r := by
  have hreads : ∀ ev : Event, ∀ keyword target, mark.reading? around = some (keyword, target) →
      ev.Reads keyword := by
    intro ev keyword target hreading
    rw [hplain] at hreading
    cases hreading
  unfold Tends at hx
  unfold Layer.Meets observe
  cases hxm : x r.machine with
  | ok b m =>
    rw [hxm] at hx
    have htook : Run.Upkept P r (r.took around mark none m) :=
      h.took hx.1 (fun _ he => by cases he) (hreads _) fun _ => hx.2.1
    exact ⟨htook, hnext b _ (h.grows htook) hx.1.grows hx.2.2⟩
  | error e m =>
    rw [hxm] at hx
    refine h.took hx.1 ?_ (hreads _) fun _ => hx.2.1
    rintro _ ⟨⟩
    exact hx.2.2

/-- A step that only fails. -/
theorem stop_meets {token : Token} {cause : RuntimeCause} (h : Ready P around r)
    (hplain : mark.reading? around = none) (ht : P token) :
    (Layer.step (fail token cause) mark next).Meets (upkeep P) around Q r :=
  have hx : Tends P (fail token cause : Exec β) r.machine fun _ _ => False := .fail h.machine ht
  step_meets h hplain hx fun _ _ _ _ hb => hb.elim

/-- A line is read for an `input` statement. -/
theorem read_meets {keyword : Token} {target : Expr} {next : Value → Layer α}
    (h : Ready P around r)
    (hreading : (Mark.nothing).reading? around = some (keyword, target)) (hk : P keyword)
    (hnext : ∀ v r', Ready P around r' → r.machine.store.Grows r'.machine.store →
      v.Proper P r'.machine.store → (next v).Meets (upkeep P) around Q r') :
    (Layer.step (takeLine >>= typedValue keyword) .nothing next).Meets (upkeep P) around Q r := by
  have hquiet := Quiet.typedLine keyword r.machine
  -- this step is one that reads, so its moment tells of the line whether or not it is text
  have hnot : (Mark.nothing).reading? around ≠ none := by
    rw [hreading]
    exact Option.some_ne_none _
  unfold Layer.Meets observe
  cases hx : (takeLine >>= typedValue keyword) r.machine with
  | ok v m =>
    rw [hx] at hquiet
    have hm := h.machine.unchanged hquiet
    have htook : Run.Upkept P r (r.took around .nothing none m) := by
      refine h.took hm (fun _ he => by cases he) (fun k t hr => ?_)
        fun hnone => absurd hnone hnot
      cases hreading.symm.trans hr
      unfold Event.Reads
      rw [hx]
    refine ⟨htook, hnext v _ (h.grows htook) hm.grows (.of_bare ?_)⟩
    exact typedLine_bare hx
  | error e m =>
    rw [hx] at hquiet
    have hm := h.machine.unchanged hquiet
    refine h.took hm ?_ (fun k t hr => ?_) fun hnone => absurd hnone hnot
    · rintro _ ⟨⟩
      exact typedLine_names hk hx
    · cases hreading.symm.trans hr
      unfold Event.Reads
      rw [hx]

/-- A task may be started on proper data, and what it gives is proper in the store it leaves. -/
theorem start_keeps {t : Task} {next : t.Result → Layer α} (h : Ready P around r)
    (ht : t.Proper P r.machine.store)
    (hnext : ∀ a r', Ready P around r' → r.machine.store.Grows r'.machine.store →
      t.Gives P r'.machine.store a → (next a).Meets (upkeep P) around Q r') :
    (Layer.start t next).Meets (upkeep P) around Q r :=
  ⟨(), h.cons ht, fun a r' hkept ha => hnext a r' (h.grows hkept) hkept.follows.grows ha⟩

/-- A task that ends the layer. -/
theorem last_keeps {t : Task} {Q : t.Result → Run → Prop} (h : Ready P around r)
    (ht : t.Proper P r.machine.store)
    (hQ : ∀ a r', Ready P around r' → t.Gives P r'.machine.store a → Q a r') :
    (Layer.start t .done).Meets (upkeep P) around Q r :=
  start_keeps h ht fun a r' h' _ ha => hQ a r' h' ha

/-- The former frame is current again afterwards. -/
theorem Run.Upkept.leave {frame : FrameId} (h : r.machine.Proper P)
    (hr : Run.Upkept P (r.atFrame frame) r') :
    Run.Upkept P r (r'.atFrame r.machine.current) := by
  obtain ⟨evs, hlog, hcourse⟩ := hr.course
  have hcurrent : r.machine.current < r'.machine.store.frames.size :=
    Nat.lt_of_lt_of_le h.current hr.follows.grows.size
  refine ⟨⟨hr.follows.grows, ⟨hr.follows.proper.store, hcurrent⟩, rfl, hr.follows.globals,
    hr.follows.table⟩, hr.roots, evs, hlog, ?_⟩
  have hend : Course P r.history.origins.roots r'.machine []
      { r'.machine with current := r.machine.current } := ⟨_, rfl⟩
  have hall := (hcourse.moved ⟨frame, rfl⟩).append hend
  rwa [List.append_nil] at hall

/-- A task started in a frame. -/
theorem enter_keeps {frame : FrameId} {f : Option Function} {t : Task}
    {next : t.Result → Layer α} (h : Ready P around r)
    (hframe : frame < r.machine.store.frames.size) (ht : t.Proper P r.machine.store)
    (hnext : ∀ a r', Ready P around r' → t.Gives P r'.machine.store a →
      (next a).Meets (upkeep P) around Q r') :
    (Layer.enter frame f t next).Meets (upkeep P) around Q r := by
  have hinside : Ready P (around.enter frame f r.history.origins) (r.atFrame frame) :=
    ⟨h.machine.atFrame hframe, h.tasks⟩
  refine ⟨(), hinside.cons ht, fun a r' hkept ha => ?_, fun r' hkept => hkept.leave h.machine⟩
  have hleft := hkept.leave h.machine
  exact ⟨hleft, hnext a _ (h.grows hleft) ha⟩

end Rules

end Lox.Eval
