import Lox.Proofs.Formed.Steps
import Lox.Proofs.Run.Contract

/-!
# Evaluation of formed trees

Every layer of a task on formed data takes steps that keep stores formed, starts tasks on formed
data, and gives formed data (`Layer.Forms`). No step stops at an operator that is none or at a
target of `input` that is no variable, and an error about a superclass names the superclass, or the
keyword `super` (`Halt.Regular`). By the contract `formation` this holds of whole runs, also of
those that fail and those that are cut short.
-/

namespace Lox.Eval

open Exec

/-! ## Tasks -/

/-- What the task works on is formed. -/
def Task.Formed : Task → Prop
  | .statement s => s.Formed
  | .statements ss => Stmt.FormedAll ss
  | .rounds condition body increment =>
    condition.Formed ∧ body.Formed ∧ Expr.FormedOption increment
  | .clause d => d.Formed
  | .expression e => e.Formed
  | .optional e => Expr.FormedOption e
  | .expressions es => Expr.FormedAll es
  | .property f => f.Formed
  | .objectProperty o _ => o.cls.Formed
  | .call callee _ arguments => callee.Formed ∧ ∀ v ∈ arguments, v.Formed
  | .invoke f arguments => f.Formed ∧ ∀ v ∈ arguments, v.Formed

/-- What the task gives is formed. -/
def Task.GivesFormed : (t : Task) → t.Result → Prop
  | .statement _, flow | .statements _, flow | .rounds _ _ _, flow => flow.Formed
  | .clause _, superclass => ∀ c ∈ superclass, c.Formed
  | .expressions _, values => ∀ v ∈ values, v.Formed
  | .expression _, v | .optional _, v | .property _, v | .objectProperty _ _, v | .call _ _ _, v
  | .invoke _ _, v => v.Formed

/-- The task is about a superclass, which the token names: that of a class about to be made, or the
one that `super` stands for. -/
def Task.NamesSuperclass (t : Token) : Task → Prop
  | .clause d => ∃ site, d.superclass = some (.variable site t)
  | .expression (.inherited _ keyword _) => t = keyword
  | _ => False

/-- A step of the task may be stopped so: by no error about an operator or about the target of an
`input` statement, and if it is one about a superclass, by one that names that. -/
def Task.MayStopWith (task : Task) : Halt → Prop
  | .fault e => e.cause ≠ .invalidOperator ∧ e.cause ≠ .inputTargetInvalid ∧
      (e.cause = .superclassNotClass → task.NamesSuperclass e.token)
  | .outOfFuel => True

/-- An error that any tree may meet may stop any task. -/
theorem Task.mayStopWith_of_plain (task : Task) {halt : Halt} (h : halt.Plain) :
    task.MayStopWith halt := by
  cases halt with
  | outOfFuel => trivial
  | fault e =>
    refine ⟨?_, ?_, fun hcause => ?_⟩
    · intro hcause
      rw [Halt.Plain, hcause] at h
      cases h
    · intro hcause
      rw [Halt.Plain, hcause] at h
      cases h
    · rw [Halt.Plain, hcause] at h
      cases h

/-- A superclass that is no class may stop the task that names it. -/
theorem Task.mayStopWith_of_superclass {task : Task} {t : Token} (h : task.NamesSuperclass t) :
    task.MayStopWith (.fault ⟨t, .superclassNotClass⟩) :=
  ⟨nofun, nofun, fun _ => h⟩

/-! ## Layers -/

/-- What the layer of the task does is done with formed stores and formed data, and what it gives
has `R`. -/
def Layer.Forms (task : Task) {α : Type} : Layer α → (α → Prop) → Prop
  | .done a, R => R a
  | .step x _ next, R => Eval.Forms x (fun b => (next b).Forms task R) task.MayStopWith
  | .start t next, R | .enter _ _ t next, R =>
    t.Formed ∧ ∀ a, t.GivesFormed a → (next a).Forms task R

namespace Layer

variable {task : Task} {α β : Type} {R : α → Prop}

/-- A step that may stop for any reason that trees of any shape give. -/
theorem step_forms {x : Exec β} {mark : Mark} {next : β → Layer α} {S : β → Prop}
    (hx : Eval.Forms x S Halt.Plain) (hnext : ∀ b, S b → (next b).Forms task R) :
    (Layer.step x mark next).Forms task R :=
  Forms.mono hx hnext fun _ => task.mayStopWith_of_plain

/-- A step that only fails. -/
theorem stop_forms {token : Token} {cause : RuntimeCause} {mark : Mark} {next : β → Layer α}
    (hcause : cause.isPlain = true) : (Layer.step (fail token cause) mark next).Forms task R :=
  step_forms (S := fun _ => False) (.fail hcause) fun _ h => h.elim

/-- A layer may go one of two ways. -/
theorem ite_forms {p : Prop} [Decidable p] {l l' : Layer α} (h : l.Forms task R)
    (h' : l'.Forms task R) : (if p then l else l').Forms task R := by
  split
  · exact h
  · exact h'

/-- A task that ends the layer. -/
theorem last_forms {t : Task} (ht : t.Formed) :
    (Layer.start t .done).Forms task t.GivesFormed :=
  ⟨ht, fun _ ha => ha⟩

end Layer

/-! ## Properties and calls -/

section Values

variable {task : Task} {f : Function} {c : Class} {o : Object} {value receiver : Value}

/-- A formed member taken as a method is formed. -/
theorem method_forms (hf : f.Formed) (hreceiver : receiver.Formed) :
    (Layer.method f receiver).Forms task Value.Formed :=
  Layer.step_forms (bind_forms hf hreceiver) fun _ hg => hg

/-- A property of a formed class is formed. -/
theorem classProperty_forms (hc : c.Formed) (name : Token) :
    (Layer.classProperty c name).Forms task Value.Formed := by
  unfold Layer.classProperty
  split
  next => exact hc
  next =>
    split
    next f hf => exact method_forms (hc.classMethod _ f hf) (show (Value.cls c).Formed from hc)
    next => exact Layer.stop_forms rfl

/-- A setter is called with a formed value, or a field is set to it. -/
theorem setProperty_forms (ho : o.cls.Formed) (name : Token) (hvalue : value.Formed) :
    (Layer.setProperty o name value).Forms task Value.Formed := by
  unfold Layer.setProperty
  split
  next f hf =>
    have hreceiver : (Value.object o).Formed := ho
    refine Layer.step_forms (bind_forms (ho.method _ f hf) hreceiver) fun g hg => ?_
    exact ⟨⟨hg, List.forall_mem_singleton.mpr hvalue⟩, fun _ _ => hvalue⟩
  next => exact Layer.step_forms (setField_forms o name.lexeme hvalue) fun _ _ => hvalue

/-- A property of an object is a field, or comes from a formed class. -/
theorem objectProperty_forms (ho : o.cls.Formed) (name : Token) :
    (Layer.objectProperty o name).Forms task Value.Formed := by
  refine Layer.step_forms (field_forms o name.lexeme) fun v? hv => ?_
  cases v? with
  | some v => exact hv v rfl
  | none =>
    dsimp only
    split
    next f hf =>
      have hreceiver : (Value.object o).Formed := ho
      refine Layer.step_forms (bind_forms (ho.method _ f hf) hreceiver) fun g hg => ?_
      exact Layer.last_forms (t := .property g) hg
    next =>
      split
      next f hf =>
        have hcls : (Value.cls o.cls).Formed := ho
        exact method_forms (ho.classMethod _ f hf) hcls
      next => exact Layer.stop_forms rfl

/-- A call of a formed value with formed arguments. -/
theorem call_forms {callee : Value} (hcallee : callee.Formed) (paren : Token)
    {arguments : List Value} (harguments : ∀ v ∈ arguments, v.Formed) :
    (Layer.call callee paren arguments).Forms task Value.Formed := by
  cases callee with
  | native n serial => exact Layer.step_forms (callNative_forms n paren arguments) fun _ hv => hv
  | function f => exact Layer.last_forms (t := .invoke f arguments) ⟨hcallee, harguments⟩
  | cls c =>
    refine Layer.step_forms (newObject_forms c) fun o ho => ?_
    have ho : (Value.object o).Formed := (congrArg Class.Formed ho).mpr hcallee
    split
    next => exact ho
    next f hf =>
      refine Layer.step_forms (bind_forms (Class.Formed.method hcallee _ f hf) ho) fun g hg => ?_
      exact ⟨⟨hg, harguments⟩, fun _ _ => ho⟩
  | _ => exact Layer.stop_forms rfl

end Values

/-! ## Expressions and statements -/

/-- The layer of a formed expression; its operator is one that evaluation knows. -/
theorem expression_forms {e : Expr} (he : e.Formed) :
    (Layer.expression e).Forms (.expression e) Value.Formed := by
  have hlast : ∀ {e : Expr} {task : Task}, e.Formed →
      (Layer.start (.expression e) .done).Forms task Value.Formed :=
    fun he => Layer.last_forms he
  cases e with
  | literal value => exact .of_bare (Value.ofLiteral_bare value)
  | «variable» site name => exact Layer.step_forms (lookUp_forms site name) fun _ hv => hv
  | assign site name value =>
    exact ⟨he, fun v hv => Layer.step_forms (assign_forms site name hv) fun _ _ => hv⟩
  | receiver site keyword => exact Layer.step_forms (lookUp_forms site keyword) fun _ hv => hv
  | inherited site keyword method =>
    refine Forms.mono (inheritedSource_forms site keyword method) (fun source hsource => ?_)
      fun halt hhalt => ?_
    · refine Layer.step_forms (bind_forms hsource.1 hsource.2) fun g hg => ?_
      exact Layer.last_forms (t := .property g) hg
    -- the one error that not every task may stop with: what `super` finds is no class
    · rcases hhalt with hplain | rfl
      · exact Task.mayStopWith_of_plain _ hplain
      · exact Task.mayStopWith_of_superclass rfl
  | group inner => exact hlast he
  | unary operator operand =>
    exact ⟨he.2, fun a _ => Layer.step_forms (unary_forms operator a) fun _ hv => hv⟩
  | binary left operator right =>
    obtain ⟨hleft, hoperator, hright⟩ := he
    exact ⟨hleft, fun a _ => ⟨hright, fun b hb =>
      Layer.step_forms (binary_forms hoperator a hb) fun _ hv => hv⟩⟩
  | logical left operator right =>
    obtain ⟨hleft, _, hright⟩ := he
    exact ⟨hleft, fun a ha => Layer.ite_forms ha (hlast hright)⟩
  | conditional condition whenTrue whenFalse =>
    obtain ⟨hcondition, htrue, hfalse⟩ := he
    exact ⟨hcondition, fun a _ => Layer.ite_forms (hlast htrue) (hlast hfalse)⟩
  | call callee paren arguments =>
    refine ⟨he.1, fun f hf => ⟨he.2, fun values hvalues => ?_⟩⟩
    split
    next => exact Layer.stop_forms rfl
    next =>
      exact Layer.ite_forms (Layer.stop_forms rfl)
        (Layer.last_forms (t := .call f paren values) ⟨hf, hvalues⟩)
  | get object name =>
    refine ⟨he, fun a ha => ?_⟩
    cases a with
    | object o => exact Layer.last_forms (t := .objectProperty o name) ha
    | cls c => exact classProperty_forms ha name
    | _ => exact Layer.stop_forms rfl
  | set object name value =>
    refine ⟨he.1, fun a ha => ?_⟩
    cases a with
    | object o => exact ⟨he.2, fun v hv => setProperty_forms ha name hv⟩
    | _ => exact Layer.stop_forms rfl
  | function d => exact Layer.step_forms (makeFunction_forms he) fun _ hf => hf

/-- The layer of a formed statement; an `input` has a variable for its target. -/
theorem statement_forms {s : Stmt} (hs : s.Formed) :
    (Layer.statement s).Forms (.statement s) Flow.Formed := by
  cases s with
  | block body => exact Layer.step_forms innerFrame_forms fun _ _ => ⟨hs, fun _ hflow => hflow⟩
  | breakLoop keyword | continueLoop keyword | empty => exact trivial
  | classDecl d =>
    exact ⟨hs, fun superclass hsuper =>
      Layer.step_forms (declareClass_forms hs hsuper) fun _ _ => trivial⟩
  | expression value => exact ⟨hs, fun _ _ => trivial⟩
  | functionDecl d => exact Layer.step_forms (declareFunction_forms hs.2) fun _ _ => trivial
  | conditional condition whenTrue whenFalse =>
    obtain ⟨hcondition, htrue, hfalse⟩ := hs
    refine ⟨hcondition, fun v _ => Layer.ite_forms (Layer.last_forms htrue) ?_⟩
    cases whenFalse with
    | none => exact trivial
    | some s => exact Layer.last_forms (t := .statement s) hfalse
  | input keyword target =>
    refine Layer.step_forms (typedLine_forms keyword) fun v hv => ?_
    exact Layer.step_forms (assignInput_forms keyword hs hv) fun _ _ => trivial
  | print keyword value =>
    exact ⟨hs, fun v _ => Layer.step_forms (print_forms keyword v) fun _ _ => trivial⟩
  | returnValue keyword value => exact ⟨hs, fun _ hv => hv⟩
  | constant name initial =>
    exact ⟨hs, fun v hv => Layer.step_forms (define_forms name.lexeme false hv) fun _ _ => trivial⟩
  | var name initial =>
    exact ⟨hs, fun v hv => Layer.step_forms (define_forms name.lexeme true hv) fun _ _ => trivial⟩
  | loop condition body increment =>
    exact Layer.last_forms (t := .rounds condition body increment) hs

/-- The rounds of a formed loop. -/
theorem rounds_forms {condition : Expr} {body : Stmt} {increment : Option Expr} {task : Task}
    (hcondition : condition.Formed) (hbody : body.Formed)
    (hincrement : Expr.FormedOption increment) :
    (Layer.rounds condition body increment).Forms task Flow.Formed := by
  refine ⟨hcondition, fun v _ => Layer.ite_forms ⟨hbody, fun flow hflow => ?_⟩ trivial⟩
  have hagain : (Layer.start (.optional increment) fun _ =>
      .start (.rounds condition body increment) .done).Forms task Flow.Formed :=
    ⟨hincrement, fun _ _ => Layer.last_forms ⟨hcondition, hbody, hincrement⟩⟩
  cases flow with
  | normal | continueLoop => exact hagain
  | breakLoop => exact trivial
  | returned value => exact hflow

/-- What a task on formed data does up to the tasks it starts. -/
theorem layer_forms {t : Task} (ht : t.Formed) : t.layer.Forms t t.GivesFormed := by
  cases t with
  | statement s => exact statement_forms ht
  | statements ss =>
    cases ss with
    | nil => exact trivial
    | cons s ss =>
      refine ⟨ht.1, fun flow hflow => ?_⟩
      cases flow with
      | normal => exact Layer.last_forms (t := .statements ss) ht.2
      | breakLoop | continueLoop => exact trivial
      | returned value => exact hflow
  | rounds condition body increment => exact rounds_forms ht.1 ht.2.1 ht.2.2
  | clause d =>
    have hclause := ClassDecl.Formed.superclass ht
    unfold Task.layer
    dsimp only
    split
    next =>
      intro c hc
      cases hc
    next parent hparent =>
      have hvariable := hclause parent hparent
      obtain ⟨site, name, rfl⟩ := hvariable
      refine ⟨trivial, fun v hv => ?_⟩
      refine Forms.mono (superclassOf_forms d ⟨site, name, rfl⟩ hv) (fun c hc => ?_) ?_
      · rintro _ ⟨⟩
        exact hc
      · rintro _ ⟨_, _, ⟨⟩, rfl⟩
        -- the value of the clause is no class, and the error names the clause that the task has
        exact Task.mayStopWith_of_superclass ⟨site, hparent⟩
  | expression e => exact expression_forms ht
  | optional e =>
    cases e with
    | none => exact trivial
    | some e => exact Layer.last_forms (t := .expression e) ht
  | expressions es =>
    cases es with
    | nil => exact List.forall_mem_nil _
    | cons e es =>
      exact ⟨ht.1, fun v hv => ⟨ht.2, fun vs hvs => List.forall_mem_cons.mpr ⟨hv, hvs⟩⟩⟩
  | property f =>
    unfold Task.layer
    dsimp only
    split
    next => exact Layer.last_forms (t := .invoke f []) ⟨ht, List.forall_mem_nil _⟩
    next => exact ht
  | objectProperty o name => exact objectProperty_forms ht name
  | call callee paren arguments => exact call_forms ht.1 paren ht.2
  | invoke f arguments =>
    refine Layer.step_forms (callFrame_forms f ht.2) fun _ _ => ?_
    refine ⟨FunctionDecl.Formed.body ht.1, fun flow hflow => ?_⟩
    exact Layer.step_forms (callResult_forms f hflow) fun _ hv => hv

/-! ## Runs -/

/-- If the step of this moment was stopped, then so as a step of its task may be. -/
def Event.Regular (ev : Event) : Prop :=
  ∀ mark halt m, ev.occurrence = .step mark (some halt) m →
    ∃ task ∈ ev.around.tasks.head?, task.MayStopWith halt

/-- The store is formed, and steps so far were stopped only as those of their tasks may be. -/
structure Run.Formed (r : Run) : Prop where
  store : r.machine.store.Formed
  log : ∀ ev ∈ r.history.log, ev.Regular

/-- Formed runs stay formed. -/
def formation : Contract where
  View := Unit
  kept _ r' := r'.Formed
  halted _ r' := r'.Formed
  pre _ t _ r := r.Formed ∧ t.Formed
  post _ t _ _ a _ := t.GivesFormed a

/-- Staying formed is the same for a run in parts. -/
theorem formation_lawful : formation.Lawful where
  trans _ h := h
  halt _ h := h
  begin_kept h := h.1
  begin_halted h := h.1

variable {r r' : Run} {around : Surroundings}

/-- One more regular moment, after which the store is formed. -/
theorem Run.Formed.logged (h : r.Formed) {ev : Event} (hev : ev.Regular)
    (hstore : r'.machine.store.Formed) (hlog : r'.history.log = r.history.log ++ [ev]) :
    r'.Formed := by
  refine ⟨hstore, fun ev' hev' => ?_⟩
  rw [hlog] at hev'
  rcases List.mem_append.mp hev' with hold | hnew
  · exact h.log ev' hold
  · exact List.mem_singleton.mp hnew ▸ hev

/-- A layer on formed data keeps a formed run formed. -/
theorem Layer.Forms.meets {t : Task} {α : Type} {l : Layer α} {R : α → Prop}
    {Q : α → Run → Prop} (hl : l.Forms t R) (hr : r.Formed) (ht : around.tasks.head? = some t)
    (hQ : ∀ a r', r'.Formed → R a → Q a r') : l.Meets formation around Q r := by
  induction l generalizing r with
  | done a => exact hQ a r hr hl
  | step x mark next ih =>
    have hx := hl r.machine hr.store
    unfold Meets observe
    cases hxm : x r.machine with
    | ok b m =>
      rw [hxm] at hx
      have htook : (r.took around mark none m).Formed :=
        hr.logged (by rintro _ _ _ ⟨⟩) hx.1 rfl
      exact ⟨htook, ih b hx.2 htook⟩
    | error halt m =>
      rw [hxm] at hx
      have hev : Event.Regular
          ⟨around, r.history.origins, r.machine, .step mark (some halt) m⟩ := by
        rintro _ _ _ ⟨⟩
        exact ⟨t, ht, hx.2⟩
      exact hr.logged hev hx.1 rfl
  | start t' next ih => exact ⟨(), ⟨hr, hl.1⟩, fun a r' hr' ha => ih a (hl.2 a ha) hr'⟩
  -- which frame is the current one does not matter for being formed
  | enter frame f t' next ih =>
    refine ⟨(), ⟨⟨hr.store, hr.log⟩, hl.1⟩, fun a r' hr' ha => ?_, fun r' hr' =>
      ⟨hr'.store, hr'.log⟩⟩
    have hleft : (r'.atFrame r.machine.current).Formed := ⟨hr'.store, hr'.log⟩
    exact ⟨hleft, ih a (hl.2 a ha) hleft⟩

/-- The layer of every task keeps the contract. -/
theorem formation_layered : formation.Layered := by
  intro _ t around r h
  refine (layer_forms h.2).meets h.1 rfl fun a r' hr' ha => ⟨?_, ha⟩
  exact hr'.logged (by rintro _ _ _ ⟨⟩) hr'.store rfl

/-- A run that starts at a formed one, with formed data, leads to a formed one, however it ends. -/
theorem formation_run (fuel : Nat) {t : Task} (hr : r.Formed) (ht : t.Formed) :
    formation.Outcome r (fun a _ => t.GivesFormed a) (t.trace fuel around r) :=
  Contract.run_task formation_lawful formation_layered fuel () t around r ⟨hr, ht⟩

end Lox.Eval
