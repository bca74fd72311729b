import Lox.Proofs.Run.Expressions

/-!
# Statements agree with resolving

The layer of every statement meets the contract: the tasks that it starts stand where the walk comes
by next, in the frame that was made for the scope open there, and it ends in a way that something
around it waits for. With the layers of the other tasks this gives `lexical_layered`, by which every
run keeps to what resolving found, also one that fails and one that runs out of fuel.
-/

namespace Lox.Eval

open Exec

variable {around : Surroundings} {r : Run} {w : Walk} {ps : List Place} {Q : Flow → Run → Prop}

/-! ## Flows of statements -/

theorem Awaited.normal (c : Context) (r : Run) : Awaited c r .normal :=
  ⟨trivial, fun _ h => by cases h⟩

theorem Awaited.of_context {c c' : Context} {flow : Flow} (h : Awaited c r flow) (hc : c = c') :
    Awaited c' r flow :=
  hc ▸ h

/-- A statement that declares nothing ends normally. -/
theorem Concluded.normal (spot : Spot) (frames : List FrameId) (r : Run) {s : Stmt}
    (hs : s.declared? = none) : Concluded spot frames r s .normal := by
  refine ⟨.normal _ r, fun _ name hname => ?_, fun _ _ _ _ => id⟩
  rw [hs] at hname
  cases hname

/-- A statement that declares nothing and is no loop ends as a statement in it does. -/
theorem Concluded.of_inner {spot : Spot} {frames : List FrameId} {s : Stmt} {flow : Flow}
    (h : Awaited spot.walk.context r flow) (hs : s.declared? = none)
    (hloop : ∀ condition body increment, s ≠ .loop condition body increment) :
    Concluded spot frames r s flow := by
  refine ⟨h, fun _ name hname => ?_, fun condition body increment heq =>
    absurd heq (hloop condition body increment)⟩
  rw [hs] at hname
  cases hname

/-- A statement that declared its name. -/
theorem Concluded.of_binds {spot : Spot} {frames : List FrameId} {s : Stmt} {name : Token}
    (hs : s.declared? = some name)
    (hbinds : ∀ frame ∈ frames.head?, r.machine.store.Binds frame name.lexeme) :
    Concluded spot frames r s .normal := by
  refine ⟨.normal _ r, fun _ name' hname' => ?_, fun _ _ _ _ => id⟩
  rw [hs, Option.toList_some, List.mem_singleton] at hname'
  exact hname' ▸ hbinds

/-! ## Statements -/

/-- A declaration of a variable whose initializer was evaluated. -/
theorem define_meets {s : Stmt} {name : Token} {value : Value} {mutable : Bool} (h : r.Sound)
    (hs : Standing ⟨w, ps⟩ around.frames r (.statement s)) (hname : s.declared? = some name)
    (hplain : name.Plain) (hvalue : r.KnowsValue value)
    (hQ : ∀ flow r', Run.Kept r r' → Concluded ⟨w, ps⟩ around.frames r' s flow → Q flow r') :
    (Layer.step (define name.lexeme value mutable) (.declares s)
      fun _ => .done .normal).Meets lexical
      around Q r := by
  have hkept := h.defining around (.declares s) r.machine.current mutable hvalue hplain.ne_super
  have hdeclared : ∀ t ∈ (Mark.declares s).declared?, t.Plain := by
    intro t ht
    rw [Mark.declared?, hname] at ht
    exact Option.some.inj ht ▸ hplain
  refine ok_meets rfl (.of_declared (by simp) hdeclared) hkept fun h₁ _ => ?_
  refine hQ .normal _ h₁ (.of_binds hname fun frame hframe => ?_)
  rw [hs.surrounds.head_eq frame hframe]
  exact Store.define_binds _ _ _ _ _ hs.surrounds.chain.lt_size

/-- In a statement a loop around it may still be waited for. -/
theorem Outermost.inside_statement (s : Stmt) (c : Context) :
    Outermost (around.inside (.statement s)).tasks c :=
  .of_inner c fun _ _ heq => by cases heq

/-- The layer of a block, whose statements are executed in a frame that is made for it. -/
theorem block_meets {body : List Stmt} (h : r.Sound)
    (hs : Standing ⟨w, ps⟩ around.frames r (.statement (.block body)))
    (hQ : ∀ flow r', Run.Kept r r' → Concluded ⟨w, ps⟩ around.frames r' (.block body) flow →
      Q flow r') :
    (Layer.statement (.block body)).Meets lexical
      (around.inside (.statement (.block body))) Q r := by
  obtain ⟨root, hroot, hv⟩ := hs.visited
  obtain ⟨frame, m, hx, h₁, hframe⟩ :=
    @blockFrame_kept r (around.inside (.statement (.block body))) h w ps body hs.surrounds
  refine ok_meets hx (.of_declared (by simp) (by simp [Mark.declared?])) h₁ fun h₁ hlogged => ?_
  refine enter_meets ⟨w.opened, ⟨.block body, none⟩ :: ps⟩ h₁.sound
    ⟨⟨⟨root, h₁.grows.roots root hroot, hv.block⟩, ?_⟩, .inside_statement _ _⟩
    fun flow r₂ h₂ hflow => ?_
  · exact (hframe.grows hlogged).grows (grows_atFrame frame _)
  · exact hQ flow r₂ (h₁.trans h₂) (.of_inner hflow rfl fun _ _ _ heq => by cases heq)

/-- The layer of `break`: an accepted program has it in loops only. -/
theorem breakLoop_meets {keyword : Token} (h : r.Sound)
    (hs : Standing ⟨w, ps⟩ around.frames r (.statement (.breakLoop keyword)))
    (hQ : ∀ flow r', Run.Kept r r' → Concluded ⟨w, ps⟩ around.frames r' (.breakLoop keyword) flow →
      Q flow r') :
    (Layer.statement (.breakLoop keyword)).Meets lexical
      (around.inside (.statement (.breakLoop keyword))) Q r := by
  obtain ⟨root, hroot, hv⟩ := hs.visited
  have hloop := hv.break_inLoop (h.accepted root hroot)
  exact hQ _ r (.refl h) (.of_inner ⟨hloop, fun _ heq => by cases heq⟩ rfl
    fun _ _ _ heq => by cases heq)

/-- The layer of `continue`, which is in loops only as well. -/
theorem continueLoop_meets {keyword : Token} (h : r.Sound)
    (hs : Standing ⟨w, ps⟩ around.frames r (.statement (.continueLoop keyword)))
    (hQ : ∀ flow r', Run.Kept r r' →
      Concluded ⟨w, ps⟩ around.frames r' (.continueLoop keyword) flow → Q flow r') :
    (Layer.statement (.continueLoop keyword)).Meets lexical
      (around.inside (.statement (.continueLoop keyword))) Q r := by
  obtain ⟨root, hroot, hv⟩ := hs.visited
  have hloop := hv.continue_inLoop (h.accepted root hroot)
  exact hQ _ r (.refl h) (.of_inner ⟨hloop, fun _ heq => by cases heq⟩ rfl
    fun _ _ _ heq => by cases heq)

/-- The layer of a class: behind its clause the members are made, and then its name is bound. -/
theorem classDecl_meets {d : ClassDecl} (h : r.Sound)
    (hs : Standing ⟨w, ps⟩ around.frames r (.statement (.classDecl d)))
    (hQ : ∀ flow r', Run.Kept r r' → Concluded ⟨w, ps⟩ around.frames r' (.classDecl d) flow →
      Q flow r') :
    (Layer.statement (.classDecl d)).Meets lexical
      (around.inside (.statement (.classDecl d))) Q r := by
  have htidy : d.Tidy := hs.visited.tidy h
  refine start_meets ⟨w, ps⟩ h hs fun c r₁ h₁ hc => ?_
  have hs₁ := hs.kept h₁
  obtain ⟨m, hx, h₂, hbinds⟩ := declareClass_kept h₁.sound hs₁.visited hs₁.surrounds hc.1 hc.2
  have hplain : ∀ name ∈ (Mark.members d).declared?, name.Plain := by
    intro name hname
    cases hname
    exact htidy.plain
  refine ok_meets hx (.of_declared (by simp) hplain) h₂ fun h₂ _ => ?_
  refine hQ _ _ (h₁.trans h₂) (.of_binds rfl fun frame hframe => ?_)
  rw [hs₁.surrounds.head_eq frame hframe]
  exact hbinds

/-- The layer of a function that is declared, whose name is bound when it is made. -/
theorem functionDecl_meets {d : FunctionDecl} (h : r.Sound)
    (hs : Standing ⟨w, ps⟩ around.frames r (.statement (.functionDecl d)))
    (hQ : ∀ flow r', Run.Kept r r' → Concluded ⟨w, ps⟩ around.frames r' (.functionDecl d) flow →
      Q flow r') :
    (Layer.statement (.functionDecl d)).Meets lexical
      (around.inside (.statement (.functionDecl d))) Q r := by
  obtain ⟨⟨name, hname, hplain⟩, _⟩ := hs.visited.tidy h
  obtain ⟨root, hroot, hv⟩ := hs.visited
  obtain ⟨m, hx, h₁, hbinds⟩ := @declareFunction_kept r
    (around.inside (.statement (.functionDecl d))) h w ps d name hname hplain
    ⟨root, hroot, hv.declaredFunction hname⟩ hs.surrounds
  have hdeclared : ∀ t ∈ (Mark.declares (.functionDecl d)).declared?, t.Plain := by
    intro t ht
    cases hname.symm.trans (Option.mem_def.mp ht)
    exact hplain
  refine ok_meets hx (.of_declared (by simp) hdeclared) h₁ fun h₁ _ => ?_
  refine hQ _ _ h₁ (.of_binds hname fun frame hframe => ?_)
  rw [hs.surrounds.head_eq frame hframe]
  exact hbinds

/-- The layer of `if`. A branch declares nothing, and so the second one stands in the scopes of the
first. -/
theorem conditional_meets {condition : Expr} {whenTrue : Stmt} {whenFalse : Option Stmt}
    (h : r.Sound)
    (hs : Standing ⟨w, ps⟩ around.frames r (.statement (.conditional condition whenTrue whenFalse)))
    (hQ : ∀ flow r', Run.Kept r r' →
      Concluded ⟨w, ps⟩ around.frames r' (.conditional condition whenTrue whenFalse) flow →
        Q flow r') :
    (Layer.statement (.conditional condition whenTrue whenFalse)).Meets lexical
      (around.inside (.statement (.conditional condition whenTrue whenFalse))) Q r := by
  obtain ⟨_, htidy, hnone, _⟩ := hs.visited.tidy h
  refine start_meets ⟨w, ps⟩ h (hs.next rfl fun _ => .condition) fun v r₁ h₁ _ => ?_
  have hcondition := condition.walk_through w
  split
  next =>
    have htrue : Standing ⟨condition.walk w, ps⟩ around.frames r (.statement whenTrue) :=
      hs.next hcondition.scopes fun _ => .whenTrue
    refine start_meets ⟨condition.walk w, ps⟩ h₁.sound ⟨htrue.kept h₁, .inside_statement _ _⟩
      fun flow r₂ h₂ hflow => ?_
    exact hQ flow r₂ (h₁.trans h₂) (.of_inner (hflow.toAwaited.of_context hcondition.context) rfl
      fun _ _ _ heq => by cases heq)
  next =>
    cases whenFalse with
    | none => exact hQ _ r₁ h₁ (.normal _ _ r₁ rfl)
    | some s =>
      have hwhenTrue := whenTrue.walk_along (condition.walk w)
      have hadds := whenTrue.walk_adds (condition.walk w) htidy
      rw [hnone, hcondition.scopes] at hadds
      have hfalse : Standing ⟨whenTrue.walk (condition.walk w), ps⟩ around.frames r
          (.statement s) := hs.after hadds (fun _ hname => by cases hname) fun _ => .whenFalse
      refine start_meets ⟨_, ps⟩ h₁.sound ⟨hfalse.kept h₁, .inside_statement _ _⟩
        fun flow r₂ h₂ hflow => ?_
      have hcontext := hwhenTrue.context.trans hcondition.context
      exact hQ flow r₂ (h₁.trans h₂) (.of_inner (hflow.toAwaited.of_context hcontext) rfl
        fun _ _ _ heq => by cases heq)

/-- The layer of `input`: what is typed in is assigned to a variable. -/
theorem input_meets {keyword : Token} {target : Expr} (h : r.Sound)
    (hs : Standing ⟨w, ps⟩ around.frames r (.statement (.input keyword target)))
    (hQ : ∀ flow r', Run.Kept r r' →
      Concluded ⟨w, ps⟩ around.frames r' (.input keyword target) flow → Q flow r') :
    (Layer.statement (.input keyword target)).Meets lexical
      (around.inside (.statement (.input keyword target))) Q r := by
  obtain ⟨site, name, rfl, hplain⟩ := hs.visited.tidy h
  have htarget : Standing ⟨w, ps⟩ around.frames r (.expression (.variable site name)) :=
    hs.next rfl fun _ => .inputTarget
  refine quiet_meets h (.typedLine keyword) .nothing fun v m r₁ hx h₁ => ?_
  have hknown : r₁.KnowsValue v := knows_typedLine hx
  refine assign_meets h₁.sound (htarget.kept h₁) rfl hplain hknown fun r₂ h₂ => ?_
  exact hQ _ r₂ (h₁.trans h₂) (.normal _ _ r₂ rfl)

/-- The layer of `print`, which leaves the store alone. -/
theorem print_meets {keyword : Token} {value : Expr} (h : r.Sound)
    (hs : Standing ⟨w, ps⟩ around.frames r (.statement (.print keyword value)))
    (hQ : ∀ flow r', Run.Kept r r' →
      Concluded ⟨w, ps⟩ around.frames r' (.print keyword value) flow → Q flow r') :
    (Layer.statement (.print keyword value)).Meets lexical
      (around.inside (.statement (.print keyword value))) Q r := by
  refine start_meets ⟨w, ps⟩ h (hs.next rfl fun _ => .printValue) fun v r₁ h₁ _ => ?_
  refine quiet_meets h₁.sound (.print keyword v) .nothing fun _ m r₂ _ h₂ => ?_
  exact hQ _ r₂ (h₁.trans h₂) (.normal _ _ r₂ rfl)

/-- The layer of `return`: an accepted program has it in functions only. -/
theorem returnValue_meets {keyword : Token} {value : Option Expr} (h : r.Sound)
    (hs : Standing ⟨w, ps⟩ around.frames r (.statement (.returnValue keyword value)))
    (hQ : ∀ flow r', Run.Kept r r' →
      Concluded ⟨w, ps⟩ around.frames r' (.returnValue keyword value) flow → Q flow r') :
    (Layer.statement (.returnValue keyword value)).Meets lexical
      (around.inside (.statement (.returnValue keyword value))) Q r := by
  obtain ⟨root, hroot, hv⟩ := hs.visited
  have hfunction := hv.return_inFunction (h.accepted root hroot)
  have hready : (Task.optional value).Ready ⟨w.checkReturn keyword true, ps⟩
      (around.inside (.statement (.returnValue keyword value))) r := by
    rintro inner rfl
    exact hs.next (Walk.checkReturn_through keyword true w).scopes fun _ => .returnedValue
  refine start_meets ⟨w.checkReturn keyword true, ps⟩ h hready fun v r₁ h₁ hvalue => ?_
  refine hQ _ r₁ h₁ (.of_inner ⟨hfunction, fun v' heq => ?_⟩ rfl fun _ _ _ heq => by cases heq)
  cases heq
  exact hvalue

/-- The layer of `val`. The name is pending while its value is evaluated. -/
theorem constant_meets {name : Token} {value : Expr} (h : r.Sound)
    (hs : Standing ⟨w, ps⟩ around.frames r (.statement (.constant name value)))
    (hQ : ∀ flow r', Run.Kept r r' →
      Concluded ⟨w, ps⟩ around.frames r' (.constant name value) flow → Q flow r') :
    (Layer.statement (.constant name value)).Meets lexical
      (around.inside (.statement (.constant name value))) Q r := by
  have htidy : (Stmt.constant name value).Tidy := hs.visited.tidy h
  have hvalue : Standing ⟨w.declare name, Place.introduce (.constant name value) ps⟩
      around.frames r (.expression value) :=
    hs.introduce rfl (Walk.enter_adds name false w) fun _ => .constantValue
  refine start_meets ⟨w.declare name, Place.introduce (.constant name value) ps⟩ h hvalue
    fun v r₁ h₁ hknown => ?_
  exact define_meets h₁.sound (hs.kept h₁) rfl htidy.1 hknown
    fun flow r₂ h₂ => hQ flow r₂ (h₁.trans h₂)

/-- The layer of `var`, with a value or without. -/
theorem var_meets {name : Token} {value : Option Expr} (h : r.Sound)
    (hs : Standing ⟨w, ps⟩ around.frames r (.statement (.var name value)))
    (hQ : ∀ flow r', Run.Kept r r' → Concluded ⟨w, ps⟩ around.frames r' (.var name value) flow →
      Q flow r') :
    (Layer.statement (.var name value)).Meets lexical
      (around.inside (.statement (.var name value))) Q r := by
  have htidy : (Stmt.var name value).Tidy := hs.visited.tidy h
  have hready : (Task.optional value).Ready ⟨w.declare name, Place.introduce (.var name value) ps⟩
      (around.inside (.statement (.var name value))) r := by
    rintro inner rfl
    exact hs.introduce rfl (Walk.enter_adds name false w) fun _ => .varValue
  refine start_meets ⟨w.declare name, Place.introduce (.var name value) ps⟩ h hready
    fun v r₁ h₁ hknown => ?_
  exact define_meets h₁.sound (hs.kept h₁) rfl htidy.1 hknown
    fun flow r₂ h₂ => hQ flow r₂ (h₁.trans h₂)

/-- The layer of a statement. -/
theorem statement_meets {s : Stmt} (h : r.Sound)
    (hs : Standing ⟨w, ps⟩ around.frames r (.statement s))
    (hQ : ∀ flow r', Run.Kept r r' → Concluded ⟨w, ps⟩ around.frames r' s flow → Q flow r') :
    (Layer.statement s).Meets lexical (around.inside (.statement s)) Q r := by
  cases s with
  | block body => exact block_meets h hs hQ
  | breakLoop keyword => exact breakLoop_meets h hs hQ
  | continueLoop keyword => exact continueLoop_meets h hs hQ
  | classDecl d => exact classDecl_meets h hs hQ
  | empty => exact hQ _ r (.refl h) (.normal _ _ r rfl)
  | expression value =>
    refine start_meets ⟨w, ps⟩ h (hs.next rfl fun _ => .expressionValue) fun v r₁ h₁ _ => ?_
    exact hQ _ r₁ h₁ (.normal _ _ r₁ rfl)
  | functionDecl d => exact functionDecl_meets h hs hQ
  | conditional condition whenTrue whenFalse => exact conditional_meets h hs hQ
  | input keyword target => exact input_meets h hs hQ
  | print keyword value => exact print_meets h hs hQ
  | returnValue keyword value => exact returnValue_meets h hs hQ
  | constant name value => exact constant_meets h hs hQ
  | «var» name value => exact var_meets h hs hQ
  | loop condition body increment =>
    refine start_meets ⟨w, ps⟩ h hs fun flow r₁ h₁ hflow => ?_
    exact hQ flow r₁ h₁ ⟨hflow.1, fun _ _ hname => (by cases hname), fun _ _ _ _ => hflow.2⟩

/-- The layer of the rounds of a loop. -/
theorem rounds_meets {condition : Expr} {body : Stmt} {increment : Option Expr} (h : r.Sound)
    (hs : Standing ⟨w, ps⟩ around.frames r (.statement (.loop condition body increment)))
    (hQ : ∀ flow r', Run.Kept r r' → Awaited w.context r' flow ∧ ¬flow.IsJump → Q flow r') :
    (Layer.rounds condition body increment).Meets lexical
      (around.inside (.rounds condition body increment)) Q r := by
  obtain ⟨_, hbody, hnone, _⟩ := hs.visited.tidy h
  -- the innermost task around the body is a loop, of which `Outermost` asks nothing
  have hinner : ∀ c, Outermost (around.inside (.rounds condition body increment)).tasks c :=
    fun c => .of_inner c fun _ _ heq => by cases heq
  refine start_meets ⟨w, ps⟩ h (hs.next rfl fun _ => .loopCondition) fun v r₁ h₁ _ => ?_
  split
  next =>
    have hthrough := condition.walk_through w
    -- the walk before the body and the one behind it; the body declares nothing, so both have the
    -- scopes of the loop
    let inside := (condition.walk w).inContext (condition.walk w).context.inLoop
    let after := (condition.walk w).within (condition.walk w).context.inLoop body.walk
    have hinside : Standing ⟨inside, ps⟩ around.frames r (.statement body) :=
      hs.next hthrough.scopes fun _ => .loopBody
    -- what a round does after its body, whether that ended or went on with `continue`
    have hagain : ∀ r₂, Run.Kept r r₂ → (Layer.start (.optional increment) fun _ =>
        .start (.rounds condition body increment) .done).Meets lexical
          (around.inside (.rounds condition body increment)) Q r₂ := by
      intro r₂ h₂
      have hadds : Scope.Adds _ inside.scopes after.scopes := body.walk_adds inside hbody
      rw [hnone, show inside.scopes = w.scopes from hthrough.scopes] at hadds
      have hready : (Task.optional increment).Ready ⟨after, ps⟩
          (around.inside (.rounds condition body increment)) r₂ := by
        rintro inner rfl
        exact (hs.after hadds (fun _ hname => by cases hname)
          fun _ => .loopIncrement).kept h₂
      refine start_meets _ h₂.sound hready fun _ r₃ h₃ _ => ?_
      refine start_meets ⟨w, ps⟩ h₃.sound (hs.kept (h₂.trans h₃)) fun flow r₄ h₄ hflow => ?_
      exact hQ flow r₄ ((h₂.trans h₃).trans h₄) hflow
    refine start_meets ⟨inside, ps⟩ h₁.sound
      ⟨hinside.kept h₁, hinner _⟩ fun flow r₂ h₂ hflow => ?_
    cases flow with
    | normal => exact hagain r₂ (h₁.trans h₂)
    | continueLoop => exact hagain r₂ (h₁.trans h₂)
    | breakLoop => exact hQ .normal r₂ (h₁.trans h₂) ⟨.normal _ r₂, id⟩
    | returned v =>
      refine hQ (.returned v) r₂ (h₁.trans h₂) ⟨⟨?_, hflow.value⟩, id⟩
      have hfunction : (condition.walk w).context.function ≠ .none := hflow.allowed
      rwa [hthrough.context] at hfunction
  next => exact hQ .normal r₁ h₁ ⟨.normal _ r₁, id⟩

/-- The layer of statements in a row. -/
theorem statements_meets {ss : List Stmt} (h : r.Sound)
    (hs : Standing ⟨w, ps⟩ around.frames r (.statements ss))
    (hQ : ∀ flow r', Run.Kept r r' → Awaited w.context r' flow → Q flow r') :
    (Task.statements ss).layer.Meets lexical (around.inside (.statements ss)) Q r := by
  have hinner : ∀ c, Outermost (around.inside (.statements ss)).tasks c :=
    fun c => .of_inner c fun _ _ heq => by cases heq
  cases ss with
  | nil => exact hQ .normal r (.refl h) (.normal _ r)
  | cons s ss =>
    have htidy : s.Tidy := (hs.visited.tidy h).1
    refine start_meets ⟨w, ps⟩ h ⟨hs.next rfl fun _ => .firstStatement, hinner _⟩
      fun flow r₁ h₁ hflow => ?_
    cases flow with
    | normal =>
      have hrest : Standing ⟨s.walk w, ps⟩ around.frames r₁ (.statements ss) :=
        (hs.kept h₁).after (s.walk_adds w htidy) (hflow.declared rfl) fun _ => .nextStatements
      refine start_meets ⟨s.walk w, ps⟩ h₁.sound ⟨hrest, hinner _⟩ fun flow r₂ h₂ hflow => ?_
      exact hQ flow r₂ (h₁.trans h₂) (hflow.of_context (s.walk_along w).context)
    | breakLoop => exact hQ _ r₁ h₁ hflow.toAwaited
    | continueLoop => exact hQ _ r₁ h₁ hflow.toAwaited
    | returned v => exact hQ _ r₁ h₁ hflow.toAwaited

/-! ## All tasks -/

/-- The layer of a call of a function: its body stands in the scope that begins with the
parameters. -/
theorem invoke_meets {Q : Value → Run → Prop} {f : Function} {arguments : List Value} (h : r.Sound)
    (hf : r.KnowsFunction f) (harguments : ∀ v ∈ arguments, r.KnowsValue v)
    (harity : arguments.length = f.arity)
    (hQ : ∀ v r', Run.Kept r r' → r'.KnowsValue v → Q v r') :
    (Task.invoke f arguments).layer.Meets lexical (around.inside (.invoke f arguments)) Q r := by
  obtain ⟨frame, m, hx, h₁, w, ps, role, ⟨root, hroot, hv⟩, hframe⟩ :=
    @callFrame_kept r (around.inside (.invoke f arguments)) h f hf arguments harguments harity
  refine ok_meets hx (.of_declared (by simp) (by simp [Mark.declared?])) h₁ fun h₁ hlogged => ?_
  have hcontext : (f.declaration.bodyStart role w).context = w.context.inFunction role :=
    (Walk.defineAll_along f.declaration.parameters _).context
  -- the loops around a function are not those of its body
  have houtermost : Outermost (around.inside (.invoke f arguments)).tasks
      (f.declaration.bodyStart role w).context := by
    refine ⟨fun heq => (by cases heq), fun _ _ _ _ => ?_⟩
    rw [hcontext]
    rfl
  refine enter_meets ⟨f.declaration.bodyStart role w, ⟨.call f.declaration, none⟩ :: ps⟩ h₁.sound
    ⟨⟨⟨root, hroot, hv.body⟩, (hframe.grows hlogged).grows (grows_atFrame frame _)⟩, houtermost⟩
    fun flow r₂ h₂ hflow => ?_
  refine quiet_meets h₂.sound (.callResult f flow) .nothing fun v m r₃ hx h₃ => ?_
  refine hQ v r₃ ((h₁.trans h₂).trans h₃) (Run.KnowsValue.grows ?_ h₃.grows)
  unfold callResult at hx
  split at hx
  next =>
    cases hx
    exact h₂.sound.receiver_known _ _
  next =>
    split at hx
    next v' =>
      cases hx
      exact hflow.value v rfl
    next =>
      cases hx
      trivial

/-- The layer of the superclass clause of a class. -/
theorem clause_meets {Q : Option Class → Run → Prop} {d : ClassDecl} (h : r.Sound)
    (hs : Standing ⟨w, ps⟩ around.frames r (.statement (.classDecl d)))
    (hQ : ∀ c r', Run.Kept r r' →
      (∀ c', c = some c' → r'.KnowsClass c') ∧ c.isSome = d.superclass.isSome → Q c r') :
    (Task.clause d).layer.Meets lexical (around.inside (.clause d)) Q r := by
  unfold Task.layer
  dsimp only
  split
  next hd => exact hQ none r (.refl h) ⟨fun _ heq => (by cases heq), by rw [hd]; rfl⟩
  next clause hd =>
    have hclause : Standing ⟨d.clauseStart w, Place.introduce (.classDecl d) ps⟩ around.frames r
        (.expression clause) :=
      hs.introduce rfl (d.clauseStart_adds w) fun _ hv => hv.clause hd
    refine start_meets ⟨d.clauseStart w, Place.introduce (.classDecl d) ps⟩ h hclause
      fun v r₁ h₁ hknown => ?_
    refine quiet_meets h₁.sound (.superclassOf d clause v) .nothing fun c m r₂ hx h₂ => ?_
    refine hQ (some c) r₂ (h₁.trans h₂) ⟨fun c' heq => ?_, by rw [hd]; rfl⟩
    cases heq
    unfold superclassOf at hx
    split at hx
    next =>
      cases hx
      exact Run.KnowsClass.grows hknown h₂.grows
    next => split at hx <;> cases hx

/-- The layer of expressions in a row. -/
theorem expressions_meets {Q : List Value → Run → Prop} {es : List Expr} (h : r.Sound)
    (hs : Standing ⟨w, ps⟩ around.frames r (.expressions es))
    (hQ : ∀ vs r', Run.Kept r r' → (∀ v ∈ vs, r'.KnowsValue v) → Q vs r') :
    (Task.expressions es).layer.Meets lexical (around.inside (.expressions es)) Q r := by
  cases es with
  | nil => exact hQ [] r (.refl h) fun _ hv => by cases hv
  | cons e es =>
    refine start_meets ⟨w, ps⟩ h (hs.next rfl fun _ => .firstExpression) fun v r₁ h₁ hv => ?_
    have hrest : Standing ⟨e.walk w, ps⟩ around.frames r (.expressions es) :=
      hs.next (e.walk_through w).scopes fun _ => .nextExpressions
    refine start_meets ⟨e.walk w, ps⟩ h₁.sound (hrest.kept h₁) fun vs r₂ h₂ hvs => ?_
    refine hQ (v :: vs) r₂ (h₁.trans h₂) fun v' hv' => ?_
    rcases List.mem_cons.mp hv' with rfl | hv'
    · exact Run.KnowsValue.grows hv h₂.grows
    · exact hvs v' hv'

/-- The layer of a task. -/
theorem layer_meets {spot : Spot} {t : Task} {Q : t.Result → Run → Prop} (h : r.Sound)
    (hready : t.Ready spot around r)
    (hQ : ∀ result r', Run.Kept r r' → t.Ended spot around r' result → Q result r') :
    t.layer.Meets lexical (around.inside t) Q r := by
  cases t with
  | statement s => exact statement_meets h hready.1 hQ
  | statements ss => exact statements_meets h hready.1 hQ
  | rounds condition body increment => exact rounds_meets h hready hQ
  | clause d => exact clause_meets h hready hQ
  | expression e => exact expression_meets h hready hQ
  | optional e =>
    cases e with
    | none => exact hQ .nil r (.refl h) trivial
    | some e => exact start_meets spot h (hready e rfl) hQ
  | expressions es => exact expressions_meets h hready hQ
  | property f =>
    unfold Task.layer
    dsimp only
    split
    next hkind =>
      have harity : f.arity = 0 := Run.Made.getter hready.toMade hkind
      exact start_meets (t := .invoke f []) spot h
        ⟨hready, (fun _ hv => by cases hv), harity.symm⟩ hQ
    next => exact hQ (.function f) r (.refl h) hready
  | objectProperty o name => exact objectProperty_meets h hready name hQ
  | call callee paren arguments => exact call_meets h hready.1 hready.2.1 hready.2.2 hQ
  | invoke f arguments => exact invoke_meets h hready.1 hready.2.1 hready.2.2 hQ

/-- Every layer agrees with resolving, and so does the end of every task. -/
theorem lexical_layered : lexical.Layered := by
  intro spot t around r ⟨h, hready⟩
  refine layer_meets h hready fun result r' hkept hended => ?_
  have hrecord : Run.Kept r' (r'.record around (.ends t result)) :=
    hkept.sound.logged (Task.Ended.endsWell hready hended)
  exact ⟨hrecord, hended.grows hrecord.grows⟩

end Lox.Eval
