import Lox.Proofs.Attested.Steps
import Lox.Proofs.Run.Contract

/-!
# Evaluation keeps values attested

The contract `attestation`: from an attested run, with attested values in all tasks at work, a run
leads to an attested run and to attested values. The layer of every task honours it, so all runs
do, also those that fail and those that are cut short. Neither names that are resolved nor stores
that are well formed are needed for this.
-/

namespace Lox.Eval

open Exec

/-- Attested runs stay attested, whatever is run. -/
def attestation : Contract where
  View := Unit
  kept r r' := r.Later r' ∧ r'.Attested
  halted r r' := r.Later r' ∧ r'.Attested
  pre _ t around r := Vouched (around.inside t) r
  post _ t _ _ a r' := ∀ v ∈ t.given a, r'.Attests v

theorem attestation_lawful : attestation.Lawful where
  trans h h' := ⟨h.1.trans h'.1, h'.2⟩
  halt h h' := ⟨h.1.trans h'.1, h'.2⟩
  begin_kept h := ⟨.refl _, h.run⟩
  begin_halted h := ⟨.refl _, h.run⟩

variable {around : Surroundings} {r r' : Run}

/-! ## Rules for layers -/

section Rules

variable {α β : Type} {next : β → Layer α} {Q : α → Run → Prop} {R : β → Run → Prop}
variable {x : Exec β} {mark : Mark}

/-- A step is taken: its log stays attested if what the step makes is, and then the rest has to. -/
theorem step_attests (h : Vouched around r) (hx : Leaves around mark x r R)
    (hnext : ∀ b r', Vouched around r' → r.Later r' → R b r' →
      (next b).Meets attestation around Q r') :
    (Layer.step x mark next).Meets attestation around Q r := by
  unfold Leaves at hx
  unfold Layer.Meets
  cases hobserved : observe around mark x r with
  | ok b r' =>
    rw [hobserved] at hx
    obtain ⟨hlater, hattested, hb⟩ := hx
    exact ⟨⟨hlater, hattested⟩, hnext b r' (h.later hlater hattested) hlater hb⟩
  | error e r' =>
    rw [hobserved] at hx
    exact hx

/-- A step that only fails. -/
theorem stop_attests {token : Token} {cause : RuntimeCause} (h : Vouched around r) :
    (Layer.step (fail token cause) mark next).Meets attestation around Q r :=
  step_attests h (fail_leaves h token cause) fun _ _ _ _ hb => hb.elim

/-- A task may be started with attested values, and what it gives is attested. -/
theorem start_attests {t : Task} {next : t.Result → Layer α} (h : Vouched around r)
    (ht : ∀ v ∈ t.values, r.Attests v)
    (hnext : ∀ a r', Vouched around r' → r.Later r' → (∀ v ∈ t.given a, r'.Attests v) →
      (next a).Meets attestation around Q r') :
    (Layer.start t next).Meets attestation around Q r :=
  ⟨(), h.cons ht, fun a r' hkept ha => hnext a r' (h.later hkept.1 hkept.2) hkept.1 ha⟩

/-- A task that ends the layer. -/
theorem last_attests {t : Task} {Q : t.Result → Run → Prop} (h : Vouched around r)
    (ht : ∀ v ∈ t.values, r.Attests v)
    (hQ : ∀ a r', Vouched around r' → (∀ v ∈ t.given a, r'.Attests v) → Q a r') :
    (Layer.start t .done).Meets attestation around Q r :=
  start_attests h ht fun a r' h' _ ha => hQ a r' h' ha

/-- Which frame is current does not matter. -/
theorem Run.Attested.atFrame (h : r.Attested) (frame : FrameId) : (r.atFrame frame).Attested :=
  ⟨h.store, h.older, h.log⟩

/-- A task started in a frame. -/
theorem enter_attests {frame : FrameId} {f : Option Function} {t : Task}
    {next : t.Result → Layer α} (h : Vouched around r) (ht : ∀ v ∈ t.values, r.Attests v)
    (hnext : ∀ a r', Vouched around r' → r.Later r' → (∀ v ∈ t.given a, r'.Attests v) →
      (next a).Meets attestation around Q r') :
    (Layer.enter frame f t next).Meets attestation around Q r := by
  have hleft : ∀ r', (r.atFrame frame).Later r' → r'.Attested →
      r.Later (r'.atFrame r.machine.current) ∧ (r'.atFrame r.machine.current).Attested :=
    fun r' hlater h' => ⟨⟨hlater.log, hlater.objects⟩, h'.atFrame _⟩
  have hinside : Vouched (around.enter frame f r.history.origins) (r.atFrame frame) :=
    ⟨h.run.atFrame frame, h.tasks⟩
  refine ⟨(), hinside.cons ht, fun a r' hkept ha => ?_, fun r' hkept => hleft r' hkept.1 hkept.2⟩
  obtain ⟨hlater, hattested⟩ := hleft r' hkept.1 hkept.2
  exact ⟨⟨hlater, hattested⟩, hnext a _ (h.later hlater hattested) hlater ha⟩

end Rules

/-! ## Properties and calls -/

section Values

variable {Q : Value → Run → Prop}

/-- A member taken as a method. -/
theorem method_attests {f : Function} {receiver : Value} (h : Vouched around r)
    (hf : f.isInitializer = true → OrdinaryInit r.history.log f) (hreceiver : r.Attests receiver)
    (hQ : ∀ v r', Vouched around r' → r'.Attests v → Q v r') :
    (Layer.method f receiver).Meets attestation around Q r :=
  step_attests h (bind_leaves h hf hreceiver) fun g r' h' _ hg => hQ (.function g) r' h' hg

theorem classProperty_attests {c : Class} {name : Token} (h : Vouched around r)
    (hc : r.Attests (.cls c)) (hQ : ∀ v r', Vouched around r' → r'.Attests v → Q v r') :
    (Layer.classProperty c name).Meets attestation around Q r := by
  unfold Layer.classProperty
  split
  next => exact hQ (.cls c) r h hc
  next =>
    split
    next f hf =>
      have hno := Class.Attested.findClassMethod hc hf
      exact method_attests h (fun hinit => nomatch hno.symm.trans hinit) hc hQ
    next => exact stop_attests h

theorem setProperty_attests {o : Object} {name : Token} {value : Value} (h : Vouched around r)
    (ho : r.Attests (.object o)) (hvalue : r.Attests value)
    (hQ : ∀ v r', Vouched around r' → r'.Attests v → Q v r') :
    (Layer.setProperty o name value).Meets attestation around Q r := by
  unfold Layer.setProperty
  split
  next f hf =>
    have hbind := bind_leaves h (Class.Attested.findMethod ho.2 hf) ho
    refine step_attests h hbind fun g r₁ h₁ hlater hg => ?_
    have harguments : ∀ v ∈ (Task.invoke g [value]).values, r₁.Attests v :=
      List.forall_mem_cons.mpr ⟨hg, List.forall_mem_singleton.mpr (hvalue.later hlater)⟩
    exact start_attests h₁ (t := .invoke g [value]) harguments fun _ r₂ h₂ hlater' _ =>
      hQ value r₂ h₂ (hvalue.later (hlater.trans hlater'))
  next =>
    exact step_attests h (setField_leaves h o name.lexeme hvalue)
      fun _ r₁ h₁ hlater _ => hQ value r₁ h₁ (hvalue.later hlater)

theorem objectProperty_attests {o : Object} {name : Token} (h : Vouched around r)
    (ho : r.Attests (.object o)) (hQ : ∀ v r', Vouched around r' → r'.Attests v → Q v r') :
    (Layer.objectProperty o name).Meets attestation around Q r := by
  refine step_attests h (field_leaves h o name.lexeme) fun v? r₁ h₁ hlater hv => ?_
  have ho₁ := ho.later hlater
  cases v? with
  | some v => exact hQ v r₁ h₁ (hv v rfl)
  | none =>
    dsimp only
    split
    next f hf =>
      have hbind := bind_leaves h₁ (Class.Attested.findMethod ho₁.2 hf) ho₁
      refine step_attests h₁ hbind fun g r₂ h₂ _ hg => ?_
      exact last_attests h₂ (t := .property g) (List.forall_mem_singleton.mpr hg)
        fun v r₃ h₃ hv => hQ v r₃ h₃ (List.forall_mem_singleton.mp hv)
    next =>
      split
      next f hf =>
        have hno := Class.Attested.findClassMethod ho₁.2 hf
        have hclass : r₁.Attests (.cls o.cls) := ho₁.2
        exact method_attests h₁ (fun hinit => nomatch hno.symm.trans hinit) hclass hQ
      next => exact stop_attests h₁

theorem call_attests {callee : Value} {paren : Token} {arguments : List Value}
    (h : Vouched around r) (hcallee : r.Attests callee) (harguments : ∀ v ∈ arguments, r.Attests v)
    (hQ : ∀ v r', Vouched around r' → r'.Attests v → Q v r') :
    (Layer.call callee paren arguments).Meets attestation around Q r := by
  cases callee with
  | native n serial =>
    exact step_attests h (callNative_leaves h n paren arguments) fun v r' h' _ hv => hQ v r' h' hv
  | function f =>
    exact last_attests h (t := .invoke f arguments) (List.forall_mem_cons.mpr ⟨hcallee, harguments⟩)
      fun v r' h' hv => hQ v r' h' (List.forall_mem_singleton.mp hv)
  | cls c =>
    refine step_attests h (newObject_leaves h hcallee) fun o r₁ h₁ hlater ho => ?_
    obtain ⟨rfl, ho⟩ := ho
    split
    next => exact hQ (.object o) r₁ h₁ ho
    next f hf =>
      have hbind := bind_leaves h₁ (Class.Attested.findMethod ho.2 hf) ho
      refine step_attests h₁ hbind fun g r₂ h₂ hlater₂ hg => ?_
      have hinvoke : ∀ v ∈ (Task.invoke g arguments).values, r₂.Attests v :=
        List.forall_mem_cons.mpr
          ⟨hg, fun v hv => (harguments v hv).later (hlater.trans hlater₂)⟩
      exact start_attests h₂ (t := .invoke g arguments) hinvoke fun _ r₃ h₃ hlater₃ _ =>
        hQ (.object o) r₃ h₃ (ho.later (hlater₂.trans hlater₃))
  | _ => exact stop_attests h

end Values

/-! ## Expressions -/

/-- A task that works on no values yet, and gives one. -/
theorem evaluates_attests {e : Expr} {α : Type} {next : Value → Layer α} {Q : α → Run → Prop}
    (h : Vouched around r)
    (hnext : ∀ v r', Vouched around r' → r.Later r' → r'.Attests v →
      (next v).Meets attestation around Q r') :
    (Layer.start (.expression e) next).Meets attestation around Q r :=
  start_attests h (t := .expression e) (List.forall_mem_nil _) fun v r' h' hlater hv =>
    hnext v r' h' hlater (List.forall_mem_singleton.mp hv)

theorem expression_attests {e : Expr} {Q : Value → Run → Prop} (h : Vouched around r)
    (hQ : ∀ v r', Vouched around r' → r'.Attests v → Q v r') :
    (Layer.expression e).Meets attestation around Q r := by
  have hlast : ∀ {e : Expr} {r : Run}, Vouched around r →
      (Layer.start (.expression e) .done).Meets attestation around Q r :=
    fun h => evaluates_attests h fun v r' h' _ hv => hQ v r' h' hv
  cases e with
  | literal value => exact hQ _ r h (.of_bare (Value.ofLiteral_bare value))
  | «variable» site name =>
    exact step_attests h (lookUp_leaves h site name) fun v r' h' _ hv => hQ v r' h' hv
  | assign site name value =>
    refine evaluates_attests h fun v r₁ h₁ _ hv => ?_
    exact step_attests h₁ (assign_leaves h₁ site name hv) fun _ r₂ h₂ hlater _ =>
      hQ v r₂ h₂ (hv.later hlater)
  | receiver site keyword =>
    exact step_attests h (lookUp_leaves h site keyword) fun v r' h' _ hv => hQ v r' h' hv
  | inherited site keyword method =>
    refine step_attests h (inheritedSource_leaves h site keyword method)
      fun source r₁ h₁ _ hsource => ?_
    -- the source attests the member and the receiver it is bound to; binding attests the function
    refine step_attests h₁ (bind_leaves h₁ hsource.1 hsource.2) fun g r₂ h₂ _ hg => ?_
    exact last_attests h₂ (t := .property g) (List.forall_mem_singleton.mpr hg)
      fun v r₃ h₃ hv => hQ v r₃ h₃ (List.forall_mem_singleton.mp hv)
  | group inner => exact hlast h
  | unary operator operand =>
    refine evaluates_attests h fun a r₁ h₁ _ ha => ?_
    exact step_attests h₁ (unary_leaves h₁ operator a) fun v r₂ h₂ _ hv => hQ v r₂ h₂ hv
  | binary left operator right =>
    refine evaluates_attests h fun a r₁ h₁ _ _ => ?_
    refine evaluates_attests h₁ fun b r₂ h₂ _ hb => ?_
    exact step_attests h₂ (binary_leaves h₂ operator a hb) fun v r₃ h₃ _ hv => hQ v r₃ h₃ hv
  | logical left operator right =>
    refine evaluates_attests h fun a r₁ h₁ _ ha => ?_
    split
    -- the left operand decides and is the value, or the right one is
    next => exact hQ a r₁ h₁ ha
    next => exact hlast h₁
  | conditional condition whenTrue whenFalse =>
    refine evaluates_attests h fun a r₁ h₁ _ _ => ?_
    split
    next => exact hlast h₁
    next => exact hlast h₁
  | call callee paren arguments =>
    refine evaluates_attests h fun f r₁ h₁ _ hf => ?_
    refine start_attests h₁ (t := .expressions arguments) (List.forall_mem_nil _)
      fun values r₂ h₂ hlater hvalues => ?_
    split
    next => exact stop_attests h₂
    next =>
      split
      next => exact stop_attests h₂
      next =>
        exact last_attests h₂ (t := .call f paren values)
          -- the callee was attested before the arguments ran and stays so
          (List.forall_mem_cons.mpr ⟨hf.later hlater, hvalues⟩)
          fun v r₃ h₃ hv => hQ v r₃ h₃ (List.forall_mem_singleton.mp hv)
  | get object name =>
    refine evaluates_attests h fun a r₁ h₁ _ ha => ?_
    cases a with
    | object o =>
      exact last_attests h₁ (t := .objectProperty o name) (List.forall_mem_singleton.mpr ha)
        fun v r₂ h₂ hv => hQ v r₂ h₂ (List.forall_mem_singleton.mp hv)
    | cls c => exact classProperty_attests h₁ ha hQ
    | _ => exact stop_attests h₁
  | set object name value =>
    refine evaluates_attests h fun a r₁ h₁ _ ha => ?_
    cases a with
    | object o =>
      refine evaluates_attests h₁ fun v r₂ h₂ hlater hv => ?_
      exact setProperty_attests h₂ (Run.Attests.later ha hlater) hv hQ
    | _ => exact stop_attests h₁
  | function d =>
    exact step_attests h (makeFunction_leaves h d) fun f r' h' _ hf => hQ (.function f) r' h' hf

/-! ## Statements -/

section Statements

variable {Q : Flow → Run → Prop}

/-- A statement, or several, that end the layer. -/
theorem executes_attests {t : Task} {Q : t.Result → Run → Prop} (h : Vouched around r)
    (ht : t.values = [])
    (hQ : ∀ a r', Vouched around r' → (∀ v ∈ t.given a, r'.Attests v) → Q a r') :
    (Layer.start t .done).Meets attestation around Q r :=
  last_attests h (fun v hv => by rw [ht] at hv; cases hv) hQ

theorem statement_attests {s : Stmt} (h : Vouched around r)
    (hQ : ∀ flow r', Vouched around r' → (∀ v ∈ Flow.values flow, r'.Attests v) → Q flow r') :
    (Layer.statement s).Meets attestation around Q r := by
  -- a flow that carries no value has nothing to attest; only `return` carries one
  have hplain : ∀ {flow : Flow} {r : Run}, Flow.values flow = [] → Vouched around r → Q flow r :=
    fun hflow h => hQ _ _ h fun v hv => by rw [hflow] at hv; cases hv
  cases s with
  | block body =>
    refine step_attests h (innerFrame_leaves h) fun frame r₁ h₁ _ _ => ?_
    exact enter_attests h₁ (t := .statements body) (List.forall_mem_nil _)
      fun flow r₂ h₂ _ hflow => hQ flow r₂ h₂ hflow
  | breakLoop keyword => exact hplain rfl h
  | continueLoop keyword => exact hplain rfl h
  | classDecl d =>
    refine start_attests h (t := .clause d) (List.forall_mem_nil _)
      fun superclass r₁ h₁ _ hsuper => ?_
    have hclass : ∀ c ∈ superclass, c.Attested r₁.history.log := fun c hc =>
      hsuper (.cls c) (List.mem_map_of_mem (Option.mem_toList.mpr hc))
    exact step_attests h₁ (declareClass_leaves h₁ d hclass) fun _ r₂ h₂ _ _ => hplain rfl h₂
  | empty => exact hplain rfl h
  | expression value => exact evaluates_attests h fun _ r₁ h₁ _ _ => hplain rfl h₁
  | functionDecl d =>
    exact step_attests h (declareFunction_leaves h d) fun _ r₁ h₁ _ _ => hplain rfl h₁
  | conditional condition whenTrue whenFalse =>
    refine evaluates_attests h fun v r₁ h₁ _ _ => ?_
    split
    next => exact executes_attests h₁ (t := .statement whenTrue) rfl hQ
    next =>
      cases whenFalse with
      | none => exact hplain rfl h₁
      | some s => exact executes_attests h₁ (t := .statement s) rfl hQ
  | input keyword target =>
    refine step_attests h (typedLine_leaves h keyword) fun v r₁ h₁ _ hv => ?_
    exact step_attests h₁ (assignInput_leaves h₁ keyword target hv) fun _ r₂ h₂ _ _ =>
      hplain rfl h₂
  | print keyword value =>
    refine evaluates_attests h fun v r₁ h₁ _ _ => ?_
    exact step_attests h₁ (print_leaves h₁ keyword v) fun _ r₂ h₂ _ _ => hplain rfl h₂
  | returnValue keyword value =>
    exact start_attests h (t := .optional value) (List.forall_mem_nil _)
      fun v r₁ h₁ _ hv => hQ (.returned v) r₁ h₁ hv
  | constant name initial =>
    refine evaluates_attests h fun v r₁ h₁ _ hv => ?_
    exact step_attests h₁ (define_leaves h₁ name.lexeme false hv) fun _ r₂ h₂ _ _ => hplain rfl h₂
  | var name initial =>
    refine start_attests h (t := .optional initial) (List.forall_mem_nil _)
      fun v r₁ h₁ _ hv => ?_
    have hvalue := List.forall_mem_singleton.mp hv
    exact step_attests h₁ (define_leaves h₁ name.lexeme true hvalue) fun _ r₂ h₂ _ _ =>
      hplain rfl h₂
  | loop condition body increment =>
    exact executes_attests h (t := .rounds condition body increment) rfl hQ

theorem rounds_attests {condition : Expr} {body : Stmt} {increment : Option Expr}
    (h : Vouched around r)
    (hQ : ∀ flow r', Vouched around r' → (∀ v ∈ Flow.values flow, r'.Attests v) → Q flow r') :
    (Layer.rounds condition body increment).Meets attestation around Q r := by
  refine evaluates_attests h fun v r₁ h₁ _ _ => ?_
  split
  next =>
    refine start_attests h₁ (t := .statement body) (List.forall_mem_nil _)
      fun flow r₂ h₂ _ hflow => ?_
    have hagain : (Layer.start (.optional increment) fun _ =>
        .start (.rounds condition body increment) .done).Meets attestation around Q r₂ :=
      start_attests h₂ (t := .optional increment) (List.forall_mem_nil _) fun _ r₃ h₃ _ _ =>
        executes_attests h₃ (t := .rounds condition body increment) rfl hQ
    cases flow with
    | normal => exact hagain
    | breakLoop => exact hQ _ r₂ h₂ (List.forall_mem_nil _)
    | continueLoop => exact hagain
    | returned value => exact hQ (.returned value) r₂ h₂ hflow
  next => exact hQ _ r₁ h₁ (List.forall_mem_nil _)

end Statements

/-! ## All tasks -/

/-- What a task does up to the tasks it starts honours the contract. -/
theorem layer_attests (t : Task) {Q : t.Result → Run → Prop} (h : Vouched (around.inside t) r)
    (hQ : ∀ a r', Vouched (around.inside t) r' → (∀ v ∈ t.given a, r'.Attests v) → Q a r') :
    t.layer.Meets attestation (around.inside t) Q r := by
  have ht : ∀ v ∈ t.values, r.Attests v := h.tasks t List.mem_cons_self
  cases t with
  | statement s => exact statement_attests h hQ
  | statements ss =>
    cases ss with
    | nil => exact hQ _ r h (List.forall_mem_nil _)
    | cons s ss =>
      refine start_attests h (t := .statement s) (List.forall_mem_nil _)
        fun flow r₁ h₁ _ hflow => ?_
      cases flow with
      | normal => exact executes_attests h₁ (t := .statements ss) rfl hQ
      | breakLoop => exact hQ _ r₁ h₁ hflow
      | continueLoop => exact hQ _ r₁ h₁ hflow
      | returned value => exact hQ (.returned value) r₁ h₁ hflow
  | rounds condition body increment => exact rounds_attests h hQ
  | clause d =>
    unfold Task.layer
    dsimp only
    split
    next => exact hQ none r h (List.forall_mem_nil _)
    next parent hparent =>
      refine evaluates_attests h fun v r₁ h₁ _ hv => ?_
      refine step_attests h₁ (superclassOf_leaves h₁ d parent hv) fun c r₂ h₂ _ hc => ?_
      exact hQ (some c) r₂ h₂ (List.forall_mem_singleton.mpr hc)
  | expression e =>
    exact expression_attests h fun v r' h' hv => hQ v r' h' (List.forall_mem_singleton.mpr hv)
  | optional e =>
    cases e with
    | none => exact hQ _ r h (List.forall_mem_singleton.mpr trivial)
    | some e => exact executes_attests h (t := .expression e) rfl hQ
  | expressions es =>
    cases es with
    | nil => exact hQ [] r h (List.forall_mem_nil _)
    | cons e es =>
      refine evaluates_attests h fun v r₁ h₁ _ hv => ?_
      refine start_attests h₁ (t := .expressions es) (List.forall_mem_nil _)
        fun vs r₂ h₂ hlater hvs => ?_
      exact hQ (v :: vs) r₂ h₂ (List.forall_mem_cons.mpr ⟨hv.later hlater, hvs⟩)
  | property f =>
    unfold Task.layer
    dsimp only
    split
    next => exact last_attests h (t := .invoke f []) ht hQ
    next => exact hQ (.function f) r h ht
  | objectProperty o name =>
    exact objectProperty_attests h (List.forall_mem_singleton.mp ht) fun v r' h' hv =>
      hQ v r' h' (List.forall_mem_singleton.mpr hv)
  | call callee paren arguments =>
    obtain ⟨hcallee, harguments⟩ := List.forall_mem_cons.mp ht
    exact call_attests h hcallee harguments fun v r' h' hv =>
      hQ v r' h' (List.forall_mem_singleton.mpr hv)
  | invoke f arguments =>
    obtain ⟨_, harguments⟩ := List.forall_mem_cons.mp ht
    refine step_attests h (callFrame_leaves h f harguments) fun frame r₁ h₁ _ _ => ?_
    refine enter_attests h₁ (t := .statements f.declaration.body) (List.forall_mem_nil _)
      fun flow r₂ h₂ _ hflow => ?_
    -- the value of a call is the one its body returned, or the receiver of the initializer
    exact step_attests h₂ (callResult_leaves h₂ f hflow) fun v r₃ h₃ _ hv =>
      hQ v r₃ h₃ (List.forall_mem_singleton.mpr hv)

theorem attestation_layered : attestation.Layered := fun _ t _ _ h =>
  layer_attests t h fun _ _ h' ha =>
    have hend := h'.recorded ha
    ⟨hend, fun v hv => (ha v hv).later hend.1⟩

/-- Every run of a task keeps values attested. -/
theorem attestation_run (fuel : Nat) {t : Task} (h : Vouched around r)
    (ht : ∀ v ∈ t.values, r.Attests v) :
    attestation.Outcome r (fun a r' => ∀ v ∈ t.given a, r'.Attests v) (t.trace fuel around r) :=
  Contract.run_task attestation_lawful attestation_layered fuel () t around r (h.cons ht)

/-! ## Programs and expressions -/

theorem Vouched.top (h : r.Attested) : Vouched .top r :=
  ⟨h, List.forall_mem_nil _⟩

theorem traceProgram_attested (fuel : Nat) (ss : List Stmt) (h : r.Attested) :
    attestation.Outcome r (fun _ _ => True) (traceProgram fuel ss r) := by
  induction ss generalizing r with
  | nil => exact ⟨⟨.refl r, h⟩, trivial⟩
  | cons s ss ih =>
    have hs := attestation_run fuel (t := .statement s) (.top h) (List.forall_mem_nil _)
    refine Contract.Outcome.bind hs fun _ r₁ h₁ _ => ?_
    exact .of_kept attestation_lawful h₁ (ih h₁.2)

/-- An expression that is evaluated, and its value written. -/
theorem traceExpression_attested (fuel : Nat) (e : Expr) (h : r.Attested) :
    attestation.Outcome r (fun _ _ => True) (traceExpression fuel e r) := by
  have he := attestation_run fuel (t := .expression e) (.top h) (List.forall_mem_nil _)
  refine Contract.Outcome.bind he fun v r₁ h₁ _ => ?_
  have htook := (Vouched.top h₁.2).took .nothing none
    (m := { r₁.machine with output := (r₁.machine.output.writeLine v.text).2 }) (Nat.le_refl _)
    (h₁.2.store.mono (List.subset_append_left _ _))
  exact ⟨⟨h₁.1.trans htook.1, htook.2⟩, trivial⟩

end Lox.Eval
