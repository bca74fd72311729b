import Lox.Proofs.Proper.Layers

/-!
# Evaluation keeps machines proper

The layer of every task honours the contract `upkeep`, so all runs do: of tasks, of programs and of
expressions that are written, also where they fail or are cut short for want of fuel.
-/

namespace Lox.Eval

open Exec

variable {P : Token → Prop} {around : Surroundings} {r : Run}

/-! ## Properties and calls -/

section Values

variable {Q : Value → Run → Prop}

/-- Making a method of a proper member. -/
theorem method_keeps {f : Function} {receiver : Value} (h : Ready P around r)
    (hf : f.Proper P r.machine.store) (hreceiver : receiver.Proper P r.machine.store)
    (hQ : ∀ v r', Ready P around r' → v.Proper P r'.machine.store → Q v r') :
    (Layer.method f receiver).Meets (upkeep P) around Q r :=
  step_meets h rfl (bind_tends h.machine hf hreceiver) fun g r' h' _ hg =>
    hQ (.function g) r' h' hg

/-- A property of a class; one that is not there is named. -/
theorem classProperty_keeps {c : Class} {name : Token} (h : Ready P around r)
    (hplain : (Mark.nothing).reading? around = none) (hc : c.Proper P r.machine.store)
    (hname : P name) (hQ : ∀ v r', Ready P around r' → v.Proper P r'.machine.store → Q v r') :
    (Layer.classProperty c name).Meets (upkeep P) around Q r := by
  unfold Layer.classProperty
  split
  next => exact hQ (.cls c) r h hc
  next =>
    split
    next f hf => exact method_keeps h (hc.findClassMethod hf) hc hQ
    next => exact stop_meets h hplain hname

/-- Setting a property, by a setter or as a field. -/
theorem setProperty_keeps {o : Object} {name : Token} {value : Value} (h : Ready P around r)
    (hplain : (Mark.nothing).reading? around = none) (ho : o.cls.Proper P r.machine.store)
    (hvalue : value.Proper P r.machine.store)
    (hQ : ∀ v r', Ready P around r' → v.Proper P r'.machine.store → Q v r') :
    (Layer.setProperty o name value).Meets (upkeep P) around Q r := by
  unfold Layer.setProperty
  split
  next f hf =>
    have hreceiver : (Value.object o).Proper P r.machine.store := ho
    have hbind := bind_tends h.machine (ho.findMethod hf) hreceiver
    refine step_meets h rfl hbind fun g r₁ h₁ hgrows hg => ?_
    have hinvoke : (Task.invoke g [value]).Proper P r₁.machine.store :=
      ⟨hg, fun v hv => List.mem_singleton.mp hv ▸ hvalue.grows hgrows⟩
    exact start_keeps h₁ hinvoke fun _ r₂ h₂ hgrows' _ =>
      hQ value r₂ h₂ ((hvalue.grows hgrows).grows hgrows')
  next =>
    exact step_meets h hplain (setField_tends h.machine o name.lexeme hvalue)
      fun _ r₁ h₁ hgrows _ => hQ value r₁ h₁ (hvalue.grows hgrows)

/-- A property of an object; one that is not there is named. -/
theorem objectProperty_keeps {o : Object} {name : Token} (h : Ready P around r)
    (hplain : (Mark.nothing).reading? around = none) (ho : o.cls.Proper P r.machine.store)
    (hname : P name) (hQ : ∀ v r', Ready P around r' → v.Proper P r'.machine.store → Q v r') :
    (Layer.objectProperty o name).Meets (upkeep P) around Q r := by
  refine step_meets h hplain (field_tends h.machine o name.lexeme) fun v? r₁ h₁ hgrows hv => ?_
  have ho₁ := ho.grows hgrows
  cases v? with
  | some v => exact hQ v r₁ h₁ (hv v rfl)
  | none =>
    dsimp only
    split
    next f hf =>
      have hreceiver : (Value.object o).Proper P r₁.machine.store := ho₁
      have hbind := bind_tends h₁.machine (ho₁.findMethod hf) hreceiver
      refine step_meets h₁ rfl hbind fun g r₂ h₂ _ hg => ?_
      exact last_keeps h₂ (t := .property g) hg hQ
    next =>
      split
      next f hf => exact method_keeps h₁ (ho₁.findClassMethod hf) ho₁ hQ
      next => exact stop_meets h₁ hplain hname

/-- A call; its parenthesis is named if it cannot be made. -/
theorem call_keeps {callee : Value} {paren : Token} {arguments : List Value}
    (h : Ready P around r) (hplain : (Mark.nothing).reading? around = none)
    (hcallee : callee.Proper P r.machine.store) (hparen : P paren)
    (harguments : ∀ v ∈ arguments, v.Proper P r.machine.store)
    (hQ : ∀ v r', Ready P around r' → v.Proper P r'.machine.store → Q v r') :
    (Layer.call callee paren arguments).Meets (upkeep P) around Q r := by
  cases callee with
  | native n serial =>
    exact step_meets h hplain (callNative_tends h.machine n arguments hparen)
      fun v r' h' _ hv => hQ v r' h' hv
  | function f => exact last_keeps h (t := .invoke f arguments) ⟨hcallee, harguments⟩ hQ
  | cls c =>
    refine step_meets h hplain (newObject_tends h.machine hcallee) fun o r₁ h₁ hgrows ho => ?_
    obtain ⟨rfl, hc⟩ := ho
    -- what the initializer gives is dropped, so the object is followed through its run
    split
    next => exact hQ (.object o) r₁ h₁ hc
    next f hf =>
      have hreceiver : (Value.object o).Proper P r₁.machine.store := hc
      have hbind := bind_tends h₁.machine (hc.findMethod hf) hreceiver
      refine step_meets h₁ rfl hbind fun g r₂ h₂ hgrows₂ hg => ?_
      have hinvoke : (Task.invoke g arguments).Proper P r₂.machine.store :=
        ⟨hg, fun v hv => ((harguments v hv).grows hgrows).grows hgrows₂⟩
      refine start_keeps h₂ hinvoke fun _ r₃ h₃ hgrows₃ _ => ?_
      exact hQ (.object o) r₃ h₃ ((hc.grows hgrows₂).grows hgrows₃)
  | _ => exact stop_meets h hplain hparen

end Values

/-! ## Expressions -/

/-- The layer of every expression goes on in order. -/
theorem expression_keeps {e : Expr} {Q : Value → Run → Prop}
    (h : Ready P (around.inside (.expression e)) r) (he : e.Names P)
    (hQ : ∀ v r', Ready P (around.inside (.expression e)) r' → v.Proper P r'.machine.store →
      Q v r') :
    (Layer.expression e).Meets (upkeep P) (around.inside (.expression e)) Q r := by
  cases e with
  | literal value => exact hQ _ r h (.of_bare (Value.ofLiteral_bare value))
  | «variable» site name =>
    exact step_meets h rfl (lookUp_tends h.machine site he) fun v r' h' _ hv => hQ v r' h' hv
  | assign site name value =>
    refine start_keeps h (t := .expression value) he.2 fun v r₁ h₁ _ hv => ?_
    -- the value of an assignment is the value assigned, proper still in the store after it
    exact step_meets h₁ rfl (assign_tends h₁.machine site he.1 hv) fun _ r₂ h₂ hgrows _ =>
      hQ v r₂ h₂ (Value.Proper.grows hv hgrows)
  | receiver site keyword =>
    exact step_meets h rfl (lookUp_tends h.machine site he) fun v r' h' _ hv => hQ v r' h' hv
  | inherited site keyword method =>
    refine step_meets h rfl (inheritedSource_tends h.machine site he.1 he.2)
      fun source r₁ h₁ _ hsource => ?_
    refine step_meets h₁ rfl (bind_tends h₁.machine hsource.1 hsource.2) fun g r₂ h₂ _ hg => ?_
    exact last_keeps h₂ (t := .property g) hg hQ
  | group inner => exact last_keeps h (t := .expression inner) he hQ
  | unary operator operand =>
    refine start_keeps h (t := .expression operand) he.2 fun a r₁ h₁ _ ha => ?_
    exact step_meets h₁ rfl (unary_tends h₁.machine he.1) fun v r₂ h₂ _ hv => hQ v r₂ h₂ hv
  | binary left operator right =>
    refine start_keeps h (t := .expression left) he.1 fun a r₁ h₁ _ ha => ?_
    refine start_keeps h₁ (t := .expression right) he.2.2 fun b r₂ h₂ _ hb => ?_
    exact step_meets h₂ rfl (binary_tends h₂.machine he.2.1 hb) fun v r₃ h₃ _ hv => hQ v r₃ h₃ hv
  | logical left operator right =>
    refine start_keeps h (t := .expression left) he.1 fun a r₁ h₁ _ ha => ?_
    split
    next => exact hQ a r₁ h₁ ha
    next => exact last_keeps h₁ (t := .expression right) he.2.2 hQ
  | conditional condition whenTrue whenFalse =>
    refine start_keeps h (t := .expression condition) he.1 fun a r₁ h₁ _ ha => ?_
    split
    next => exact last_keeps h₁ (t := .expression whenTrue) he.2.1 hQ
    next => exact last_keeps h₁ (t := .expression whenFalse) he.2.2 hQ
  | call callee paren arguments =>
    refine start_keeps h (t := .expression callee) he.1 fun f r₁ h₁ _ hf => ?_
    refine start_keeps h₁ (t := .expressions arguments) he.2.2 fun values r₂ h₂ hgrows hv => ?_
    split
    next => exact stop_meets h₂ rfl he.2.1
    next =>
      split
      next => exact stop_meets h₂ rfl he.2.1
      next =>
        exact last_keeps h₂ (t := .call f paren values)
          ⟨Value.Proper.grows hf hgrows, he.2.1, hv⟩ hQ
  | get object name =>
    refine start_keeps h (t := .expression object) he.1 fun a r₁ h₁ _ ha => ?_
    cases a with
    | object o => exact last_keeps h₁ (t := .objectProperty o name) ⟨ha, he.2⟩ hQ
    | cls c => exact classProperty_keeps h₁ rfl ha he.2 hQ
    | _ => exact stop_meets h₁ rfl he.2
  | set object name value =>
    refine start_keeps h (t := .expression object) he.1 fun a r₁ h₁ _ ha => ?_
    cases a with
    | object o =>
      refine start_keeps h₁ (t := .expression value) he.2.2 fun v r₂ h₂ hgrows hv => ?_
      exact setProperty_keeps h₂ rfl (Class.Proper.grows ha hgrows) hv hQ
    | _ => exact stop_meets h₁ rfl he.2.1
  | function d =>
    exact step_meets h rfl (makeFunction_tends h.machine he) fun f r' h' _ hf =>
      hQ (.function f) r' h' hf

/-! ## Statements -/

/-- The layer of every statement goes on in order; an `input` reads one line. -/
theorem statement_keeps {s : Stmt} {Q : Flow → Run → Prop}
    (h : Ready P (around.inside (.statement s)) r) (hs : s.Names P)
    (hQ : ∀ flow r', Ready P (around.inside (.statement s)) r' →
      flow.Proper P r'.machine.store → Q flow r') :
    (Layer.statement s).Meets (upkeep P) (around.inside (.statement s)) Q r := by
  cases s with
  | block body =>
    refine step_meets h rfl (innerFrame_tends h.machine) fun frame r₁ h₁ _ hframe => ?_
    exact enter_keeps h₁ hframe (t := .statements body) hs fun flow r₂ h₂ hflow =>
      hQ flow r₂ h₂ hflow
  | breakLoop keyword => exact hQ _ r h trivial
  | continueLoop keyword => exact hQ _ r h trivial
  | classDecl d =>
    refine start_keeps h (t := .clause d) hs fun superclass r₁ h₁ _ hsuper => ?_
    exact step_meets h₁ rfl (declareClass_tends h₁.machine hs hsuper) fun _ r₂ h₂ _ _ =>
      hQ _ r₂ h₂ trivial
  | empty => exact hQ _ r h trivial
  | expression value =>
    exact start_keeps h (t := .expression value) hs fun _ r₁ h₁ _ _ => hQ _ r₁ h₁ trivial
  | functionDecl d =>
    exact step_meets h rfl (declareFunction_tends h.machine hs) fun _ r₁ h₁ _ _ =>
      hQ _ r₁ h₁ trivial
  | conditional condition whenTrue whenFalse =>
    refine start_keeps h (t := .expression condition) hs.1 fun v r₁ h₁ _ _ => ?_
    split
    next => exact last_keeps h₁ (t := .statement whenTrue) hs.2.1 hQ
    next =>
      cases whenFalse with
      | none => exact hQ _ r₁ h₁ trivial
      | some s => exact last_keeps h₁ (t := .statement s) hs.2.2 hQ
  | input keyword target =>
    -- no other step uses input
    refine read_meets h rfl hs.1 fun v r₁ h₁ _ hv => ?_
    exact step_meets h₁ rfl (assignInput_tends h₁.machine hs.1 hs.2 hv) fun _ r₂ h₂ _ _ =>
      hQ _ r₂ h₂ trivial
  | print keyword value =>
    refine start_keeps h (t := .expression value) hs.2 fun v r₁ h₁ _ _ => ?_
    exact step_meets h₁ rfl (print_tends h₁.machine v hs.1) fun _ r₂ h₂ _ _ => hQ _ r₂ h₂ trivial
  | returnValue keyword value =>
    exact start_keeps h (t := .optional value) hs.2 fun v r₁ h₁ _ hv => hQ (.returned v) r₁ h₁ hv
  | constant name initial =>
    refine start_keeps h (t := .expression initial) hs fun v r₁ h₁ _ hv => ?_
    exact step_meets h₁ rfl (define_tends h₁.machine name.lexeme false hv) fun _ r₂ h₂ _ _ =>
      hQ _ r₂ h₂ trivial
  | var name initial =>
    refine start_keeps h (t := .optional initial) hs fun v r₁ h₁ _ hv => ?_
    exact step_meets h₁ rfl (define_tends h₁.machine name.lexeme true hv) fun _ r₂ h₂ _ _ =>
      hQ _ r₂ h₂ trivial
  | loop condition body increment =>
    exact last_keeps h (t := .rounds condition body increment) hs hQ

/-- The rounds of a loop go on in order. -/
theorem rounds_keeps {condition : Expr} {body : Stmt} {increment : Option Expr}
    {Q : Flow → Run → Prop} (h : Ready P around r)
    (hrounds : (Task.rounds condition body increment).Proper P r.machine.store)
    (hQ : ∀ flow r', Ready P around r' → flow.Proper P r'.machine.store → Q flow r') :
    (Layer.rounds condition body increment).Meets (upkeep P) around Q r := by
  obtain ⟨hcondition, hbody, hincrement⟩ := hrounds
  refine start_keeps h (t := .expression condition) hcondition fun v r₁ h₁ _ _ => ?_
  split
  next =>
    refine start_keeps h₁ (t := .statement body) hbody fun flow r₂ h₂ _ hflow => ?_
    -- the next round, after a body that ended normally or was cut short
    have hagain : (Layer.start (.optional increment) fun _ =>
        .start (.rounds condition body increment) .done).Meets (upkeep P) around Q r₂ :=
      start_keeps h₂ (t := .optional increment) hincrement fun _ r₃ h₃ _ _ =>
        last_keeps h₃ (t := .rounds condition body increment) ⟨hcondition, hbody, hincrement⟩ hQ
    cases flow with
    | normal => exact hagain
    | breakLoop => exact hQ _ r₂ h₂ trivial
    | continueLoop => exact hagain
    | returned value => exact hQ (.returned value) r₂ h₂ hflow
  next => exact hQ _ r₁ h₁ trivial

/-! ## All tasks -/

/-- What a task does up to the tasks it starts honours the contract. -/
theorem layer_keeps (t : Task) {Q : t.Result → Run → Prop} (h : Ready P (around.inside t) r)
    (hQ : ∀ a r', Ready P (around.inside t) r' → t.Gives P r'.machine.store a → Q a r') :
    t.layer.Meets (upkeep P) (around.inside t) Q r := by
  have ht : t.Proper P r.machine.store := h.tasks t List.mem_cons_self
  cases t with
  | statement s => exact statement_keeps h ht hQ
  | statements ss =>
    cases ss with
    | nil => exact hQ _ r h trivial
    | cons s ss =>
      refine start_keeps h (t := .statement s) ht.1 fun flow r₁ h₁ _ hflow => ?_
      cases flow with
      | normal => exact last_keeps h₁ (t := .statements ss) ht.2 hQ
      | breakLoop => exact hQ _ r₁ h₁ trivial
      | continueLoop => exact hQ _ r₁ h₁ trivial
      | returned value => exact hQ (.returned value) r₁ h₁ hflow
  | rounds condition body increment => exact rounds_keeps h ht hQ
  | clause d =>
    have hclause := ClassDecl.Names.superclass ht
    unfold Task.layer
    dsimp only
    split
    next => exact hQ none r h fun _ hc => by cases hc
    next parent hparent =>
      rw [hparent] at hclause
      refine start_keeps h (t := .expression parent) hclause fun v r₁ h₁ _ hv => ?_
      refine step_meets h₁ rfl (superclassOf_tends h₁.machine ht hclause hv) fun c r₂ h₂ _ hc => ?_
      refine hQ (some c) r₂ h₂ ?_
      rintro _ ⟨⟩
      exact hc
  | expression e => exact expression_keeps h ht hQ
  | optional e =>
    cases e with
    | none => exact hQ _ r h trivial
    | some e => exact last_keeps h (t := .expression e) ht hQ
  | expressions es =>
    cases es with
    | nil => exact hQ [] r h fun _ hv => absurd hv List.not_mem_nil
    | cons e es =>
      refine start_keeps h (t := .expression e) ht.1 fun v r₁ h₁ _ hv => ?_
      refine start_keeps h₁ (t := .expressions es) ht.2 fun vs r₂ h₂ hgrows hvs => ?_
      refine hQ (v :: vs) r₂ h₂ fun w hw => ?_
      -- the first value was proper before the others were computed, and the store has only grown
      rcases List.mem_cons.mp hw with rfl | hw
      · exact Value.Proper.grows hv hgrows
      · exact hvs w hw
  | property f =>
    unfold Task.layer
    dsimp only
    split
    next =>
      exact last_keeps h (t := .invoke f []) ⟨ht, fun _ hv => absurd hv List.not_mem_nil⟩ hQ
    next => exact hQ (.function f) r h ht
  | objectProperty o name => exact objectProperty_keeps h rfl ht.1 ht.2 hQ
  | call callee paren arguments => exact call_keeps h rfl ht.1 ht.2.1 ht.2.2 hQ
  | invoke f arguments =>
    refine step_meets h rfl (callFrame_tends h.machine ht.1 ht.2) fun frame r₁ h₁ _ hframe => ?_
    refine enter_keeps h₁ hframe (t := .statements f.declaration.body) ht.1.names.body
      fun flow r₂ h₂ hflow => ?_
    exact step_meets h₂ rfl (callResult_tends h₂.machine f hflow) fun v r₃ h₃ _ hv => hQ v r₃ h₃ hv

/-- The layer of every task keeps the contract. -/
theorem upkeep_layered : (upkeep P).Layered := fun _ t _ _ h =>
  layer_keeps t h fun _ _ h' ha => ⟨h'.tail.recorded ha, ha⟩

/-- Every run of a task keeps machines proper. -/
theorem upkeep_run (fuel : Nat) {t : Task} (h : Ready P around r)
    (ht : t.Proper P r.machine.store) :
    (upkeep P).Outcome r (fun a r' => t.Gives P r'.machine.store a) (t.trace fuel around r) :=
  Contract.run_task upkeep_lawful upkeep_layered fuel () t around r (h.cons ht)

/-! ## Programs and expressions -/

theorem Ready.top (h : r.machine.Proper P) : Ready P .top r :=
  ⟨h, fun _ ht => nomatch ht⟩

theorem traceProgram_upkeep (fuel : Nat) {ss : List Stmt} (h : r.machine.Proper P)
    (hss : Stmt.NamesAll P ss) :
    (upkeep P).Outcome r (fun _ _ => True) (traceProgram fuel ss r) := by
  induction ss generalizing r with
  | nil => exact ⟨.refl h, trivial⟩
  | cons s ss ih =>
    refine Contract.Outcome.bind (upkeep_run fuel (t := .statement s) (.top h) hss.1)
      fun _ r₁ h₁ _ => ?_
    exact .of_kept upkeep_lawful h₁ (ih h₁.follows.proper hss.2)

/-- An expression that is evaluated, and its value written. -/
theorem traceExpression_upkeep (fuel : Nat) {e : Expr} (h : r.machine.Proper P)
    (he : e.Names P) :
    (upkeep P).Outcome r (fun _ _ => True) (traceExpression fuel e r) := by
  refine Contract.Outcome.bind (upkeep_run fuel (t := .expression e) (.top h) he)
    fun v r₁ h₁ _ => ?_
  have hwrite := writeLine_tends h₁.follows.proper v
  have htook : Run.Upkept P r₁ (r₁.took .top .nothing none
      { r₁.machine with output := (r₁.machine.output.writeLine v.text).2 }) :=
    (Ready.top h₁.follows.proper).took hwrite.1 (fun _ he => nomatch he)
      (fun _ _ hr => nomatch hr) fun _ => hwrite.2.1
  exact ⟨h₁.trans htook, trivial⟩

end Lox.Eval
