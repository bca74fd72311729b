import Lox.Proofs.Run.Actions

/-!
# Steps that say nothing

Output is written by `print` statements and by nothing else that a program does. A silent
computation neither reads nor writes it: with another output it does the same and leaves that output
alone (`Silent`). Each step of each task is silent or prints for a `print` statement
(`Task.layer_speaks`).
-/

namespace Lox

/-- The machine with another output. -/
def Machine.withOutput (m : Machine) (o : Output) : Machine :=
  { m with output := o }

namespace Eval

open Exec

/-- The computation does the same whatever the output is, and leaves it as it is. -/
def Silent {α : Type} (x : Exec α) : Prop :=
  ∀ m o, x (m.withOutput o) = match x m with
    | .ok a m' => .ok a (m'.withOutput o)
    | .error e m' => .error e (m'.withOutput o)

namespace Silent

variable {α β : Type} {x : Exec α} {f : α → Exec β}

/-- Giving back a value writes nothing. -/
theorem pure (a : α) : Silent (pure a : Exec α) :=
  fun _ _ => rfl

/-- Failing writes nothing. -/
theorem fail (token : Token) (cause : RuntimeCause) : Silent (fail token cause : Exec α) :=
  fun _ _ => rfl

/-- Computations that are silent are so one after the other. -/
theorem bind (hx : Silent x) (hf : ∀ a, Silent (f a)) : Silent (x >>= f) := by
  intro m o
  show EStateM.bind x f (m.withOutput o) = match EStateM.bind x f m with
    | .ok b m' => .ok b (m'.withOutput o)
    | .error e m' => .error e (m'.withOutput o)
  unfold EStateM.bind
  rw [hx m o]
  cases x m with
  | ok a m' => exact hf a m' o
  | error e m' => rfl

/-- A silent computation that succeeds leaves the output as it was. -/
theorem output_of_ok (hx : Silent x) {m m' : Machine} {a : α} (h : x m = .ok a m') :
    m'.output = m.output := by
  have hsame : x (m.withOutput m.output) = .ok a (m'.withOutput m.output) := by
    rw [hx m m.output, h]
  injection h.symm.trans hsame with _ hm
  rw [hm]
  rfl

/-- A silent computation that fails leaves the output as it was. -/
theorem output_of_error (hx : Silent x) {m m' : Machine} {e : Halt} (h : x m = .error e m') :
    m'.output = m.output := by
  have hsame : x (m.withOutput m.output) = .error e (m'.withOutput m.output) := by
    rw [hx m m.output, h]
  injection h.symm.trans hsame with _ hm
  rw [hm]
  rfl

/-- What is read of the machine is not its output. -/
theorem get_bind {f : Machine → Exec β} (hsame : ∀ m o, f (m.withOutput o) = f m)
    (hf : ∀ m, Silent (f m)) : Silent (get >>= f) := by
  intro m o
  show f (m.withOutput o) (m.withOutput o) = _
  rw [hsame]
  exact hf m m o

/-- A result that was worked out without the machine. -/
theorem ofExcept (token : Token) (result : Except RuntimeCause α) :
    Silent (ofExcept token result) := by
  cases result with
  | ok a => exact .pure a
  | error cause => exact .fail token cause

/-- What changes nothing but the store is silent. -/
theorem of_storing (h : Storing x) : Silent x := by
  intro m o
  obtain ⟨a, s, hx⟩ := h m
  rw [hx m rfl rfl, hx (m.withOutput o) rfl rfl]
  rfl

/-- Reading a line writes nothing. -/
theorem takeLine : Silent takeLine :=
  fun _ _ => rfl

/-- Looking up a name writes nothing. -/
theorem lookUp (site : Site) (name : Token) : Silent (lookUp site name) := by
  refine .get_bind (fun _ _ => rfl) fun m => ?_
  split
  next => exact .pure _
  next => exact .fail _ _

/-- An assignment writes nothing, whether it fails or not. -/
theorem assign (site : Site) (name : Token) (value : Value) : Silent (assign site name value) := by
  intro m o
  unfold Exec.assign
  rw [show (m.withOutput o).target site name.lexeme = m.target site name.lexeme from rfl]
  cases m.target site name.lexeme <;> rfl

/-- No native function writes. -/
theorem callNative (n : Native) (paren : Token) (arguments : List Value) :
    Silent (callNative n paren arguments) := by
  intro m o
  unfold Eval.callNative
  rw [show (m.withOutput o).host = m.host from rfl]
  rcases n.apply arguments m.host with ⟨_ | _, host⟩ <;> rfl

end Silent

/-! ## Steps -/

/-- Making a value of a line writes nothing. -/
theorem typedValue_silent (keyword : Token) (line : Line) : Silent (typedValue keyword line) := by
  cases line with
  | absent => exact .pure _
  | text s => exact .pure _
  | unreadable => exact .fail _ _

/-- Assigning what was read writes nothing. -/
theorem assignInput_silent (keyword : Token) (target : Expr) (value : Value) :
    Silent (assignInput keyword target value) := by
  cases target with
  | «variable» site name => exact .assign site name value
  | _ => exact .fail _ _

/-- Checking a superclass writes nothing. -/
theorem superclassOf_silent (d : ClassDecl) (clause : Expr) (value : Value) :
    Silent (superclassOf d clause value) := by
  unfold superclassOf
  split
  next => exact .pure _
  next =>
    split
    next => exact .fail _ _
    next => exact .fail _ _

/-- Finding a method of a superclass writes nothing. -/
theorem inheritedSource_silent (site : Site) (keyword method : Token) :
    Silent (inheritedSource site keyword method) := by
  refine .get_bind (fun _ _ => rfl) fun m => ?_
  split
  next => exact .fail _ _
  next =>
    split
    next =>
      dsimp only
      split
      next => exact .pure _
      next => exact .fail _ _
    next => exact .fail _ _

/-- The result of a call writes nothing. -/
theorem callResult_silent (f : Function) (flow : Flow) : Silent (callResult f flow) := by
  unfold callResult
  split
  next => exact .get_bind (fun _ _ => rfl) fun _ => .pure _
  next =>
    split
    next => exact .pure _
    next => exact .pure _

/-! ## Layers -/

/-- The innermost of these tasks is a `print` statement. -/
def Printing (tasks : List Task) : Prop :=
  ∃ keyword e outer, tasks = .statement (.print keyword e) :: outer

/-- A step of the innermost of these tasks is silent, or that task is a `print` statement and the
step prints for it. -/
inductive Speaks (tasks : List Task) : {β : Type} → Exec β → Prop where
  | silent {β : Type} {x : Exec β} (hother : ¬Printing tasks) (h : Silent x) : Speaks tasks x
  | print {keyword : Token} {e : Expr} {outer : List Task}
      (htask : tasks = .statement (.print keyword e) :: outer) (value : Value) :
      Speaks tasks (print keyword value)

/-- All steps of the layer are silent or print for the innermost task. -/
def Layer.Speaks (tasks : List Task) {α : Type} : Layer α → Prop
  | .done _ => True
  | .step x _ next => Eval.Speaks tasks x ∧ ∀ b, (next b).Speaks tasks
  | .start _ next => ∀ a, (next a).Speaks tasks
  | .enter _ _ _ next => ∀ a, (next a).Speaks tasks

section Speaks

variable {tasks : List Task} {α : Type} {x : Exec α} {mark : Mark}

/-- A quiet action is silent, unless it prints. -/
theorem QuietAction.silent (h : QuietAction tasks x mark) (hother : ¬Printing tasks) :
    Silent x := by
  cases h with
  | fail token cause => exact .fail token cause
  | ofExcept token result => exact .ofExcept token result
  | field o name => exact .get_bind (fun _ _ => rfl) fun _ => .pure _
  | native n paren arguments => exact .callNative n paren arguments
  | superclass d clause value => exact superclassOf_silent d clause value
  | typedLine keyword => exact .bind .takeLine (typedValue_silent keyword)
  | callResult f flow => exact callResult_silent f flow
  | print keyword e value => exact absurd ⟨keyword, e, _, rfl⟩ hother
  | «variable» site name => exact .lookUp site name
  | receiver site keyword => exact .lookUp site keyword
  | inherited site keyword method => exact inheritedSource_silent site keyword method

/-- Every action is silent, unless it prints. -/
theorem Action.silent (h : Action tasks x mark) (hother : ¬Printing tasks) : Silent x := by
  cases h with
  | quiet h => exact h.silent hother
  | storing h => exact .of_storing h.stores
  | assign site name e value => exact .assign site name value
  | input keyword target value => exact assignInput_silent keyword target value

/-- A layer of a task that is no `print` is silent. -/
theorem Layer.Acts.speaks (hother : ¬Printing tasks) {l : Layer α} (h : l.Acts tasks) :
    l.Speaks tasks := by
  induction l with
  | done a => trivial
  | step x mark next ih => exact ⟨.silent hother (h.1.silent hother), fun b => ih b (h.2 b)⟩
  | start t next ih | enter frame f t next ih => exact fun a => ih a (h a)

end Speaks

/-- Every step of every task is silent, or it prints for a `print` statement. -/
theorem Task.layer_speaks (t : Task) (outer : List Task) : t.layer.Speaks (t :: outer) := by
  by_cases hprints : Printing (t :: outer)
  · obtain ⟨keyword, e, _, htasks⟩ := hprints
    obtain rfl := (List.cons.inj htasks).1
    exact fun value => ⟨.print rfl value, fun _ => trivial⟩
  · exact (t.layer_acts outer).speaks hprints

end Eval

end Lox
