import Lox.Proofs.Run.Classes

/-!
# What tasks ask for and give

The contract of a run that agrees with resolving. A task that is about a part of a tree asks that
the walk came by the part and that the frames around were made for the scopes open there; a task
that is about values asks that they are known (`Task.Ready`). What a task gives is known, and a
statement ends in a way that something around it waits for (`Task.Ended`).
-/

namespace Lox.Eval

/-- A point of a walk: its state, and what the open scopes are for. -/
structure Spot where
  walk : Walk
  places : List Place

/-- The walk came by the part at the spot, and the frames were made for the scopes open there. -/
structure Standing (spot : Spot) (frames : List FrameId) (r : Run) (part : Part) : Prop where
  visited : r.Visited spot.walk spot.places part
  surrounds : Surrounds r r.machine.current frames spot.walk.scopes spot.places

/-- A statement around which there is none stands outside of loops, and outside of functions if
there is no call either. -/
structure Outermost (tasks : List Task) (c : Context) : Prop where
  program : tasks = [] → c.function = .none ∧ c.loopDepth = 0
  body : ∀ f arguments rest, tasks = .invoke f arguments :: rest → c.loopDepth = 0

/-- What a task asks for. -/
def Task.Ready (spot : Spot) (around : Surroundings) (r : Run) : Task → Prop
  | .statement s =>
    Standing spot around.frames r (.statement s) ∧ Outermost around.tasks spot.walk.context
  | .statements ss =>
    Standing spot around.frames r (.statements ss) ∧ Outermost around.tasks spot.walk.context
  | .rounds condition body increment =>
    Standing spot around.frames r (.statement (.loop condition body increment))
  | .clause d => Standing spot around.frames r (.statement (.classDecl d))
  | .expression e => Standing spot around.frames r (.expression e)
  | .optional e => ∀ inner, e = some inner → Standing spot around.frames r (.expression inner)
  | .expressions es => Standing spot around.frames r (.expressions es)
  | .property f => r.KnowsFunction f
  | .objectProperty o _ => r.KnowsClass o.cls
  | .call callee _ arguments =>
    r.KnowsValue callee ∧ (∀ v ∈ arguments, r.KnowsValue v) ∧
      callee.arity? = some arguments.length
  | .invoke f arguments =>
    r.KnowsFunction f ∧ (∀ v ∈ arguments, r.KnowsValue v) ∧ arguments.length = f.arity

/-- A flow that something around the context waits for. -/
structure Awaited (c : Context) (r : Run) (flow : Flow) : Prop where
  allowed : flow.Allowed c
  value : ∀ v, flow = .returned v → r.KnowsValue v

/-- What a statement gives: if it ends normally, then the name that it declares is bound. -/
structure Concluded (spot : Spot) (frames : List FrameId) (r : Run) (s : Stmt) (flow : Flow) :
    Prop extends Awaited spot.walk.context r flow where
  declared : flow = .normal → ∀ name ∈ s.declared?.toList, ∀ frame ∈ frames.head?,
    r.machine.store.Binds frame name.lexeme
  loop : ∀ condition body increment, s = .loop condition body increment → ¬flow.IsJump

/-- What a task gives. -/
def Task.Ended (spot : Spot) (around : Surroundings) (r : Run) : (t : Task) → t.Result → Prop
  | .statement s, flow => Concluded spot around.frames r s flow
  | .statements _, flow => Awaited spot.walk.context r flow
  | .rounds _ _ _, flow => Awaited spot.walk.context r flow ∧ ¬flow.IsJump
  | .clause d, c => (∀ c', c = some c' → r.KnowsClass c') ∧ c.isSome = d.superclass.isSome
  | .expressions _, values => ∀ v ∈ values, r.KnowsValue v
  | .expression _, v | .optional _, v | .property _, v | .objectProperty _ _, v | .call _ _ _, v
  | .invoke _ _, v => r.KnowsValue v

/-- The contract of a run that agrees with resolving. -/
def lexical : Contract where
  View := Spot
  kept := Run.Kept
  halted := Run.Kept
  pre spot t around r := r.Sound ∧ t.Ready spot around r
  post spot t around _ result r' := t.Ended spot around r' result

theorem lexical_lawful : lexical.Lawful where
  trans := Run.Kept.trans
  halt := Run.Kept.trans
  begin_kept h := .refl h.1
  begin_halted h := .refl h.1

/-! ## Flows -/

theorem Outermost.of_inner {t : Task} {tasks : List Task} (c : Context)
    (ht : ∀ f arguments, t ≠ .invoke f arguments) : Outermost (t :: tasks) c := by
  refine ⟨fun h => (nomatch h), fun f arguments rest h => ?_⟩
  injection h with h
  exact absurd h (ht f arguments)

/-- What a task gives makes it end well. -/
theorem Task.Ended.endsWell {spot : Spot} {around : Surroundings} {r r' : Run} {t : Task}
    {result : t.Result} (hready : t.Ready spot around r) (h : t.Ended spot around r' result) :
    t.EndsWell around.tasks result := by
  cases t with
  | statement s =>
    refine ⟨fun htop => ?_, h.loop⟩
    obtain ⟨hfunction, hloop⟩ := hready.2.program htop
    exact h.allowed.eq_normal hfunction hloop
  | statements ss =>
    intro f arguments rest hbody
    exact h.allowed.not_jump (hready.2.body f arguments rest hbody)
  | rounds condition body increment => exact h.2
  | _ => trivial

/-! ## Going on -/

section Grows

variable {spot : Spot} {around : Surroundings} {r r' : Run}

theorem Awaited.grows {c : Context} {flow : Flow} (h : Awaited c r flow) (hr : r.Grows r') :
    Awaited c r' flow :=
  ⟨h.allowed, fun v hv => (h.value v hv).grows hr⟩

theorem Task.Ended.grows {t : Task} {result : t.Result} (h : t.Ended spot around r result)
    (hr : r.Grows r') : t.Ended spot around r' result := by
  cases t with
  | statement s =>
    refine ⟨h.toAwaited.grows hr, fun hflow name hname frame hframe => ?_, h.loop⟩
    exact hr.store.binds frame _ (h.declared hflow name hname frame hframe)
  | statements ss => exact Awaited.grows h hr
  | rounds condition body increment => exact ⟨h.1.grows hr, h.2⟩
  | clause d => exact ⟨fun c hc => (h.1 c hc).grows hr, h.2⟩
  | expressions es => exact fun v hv => (h v hv).grows hr
  | expression e => exact Run.KnowsValue.grows h hr
  | optional e => exact Run.KnowsValue.grows h hr
  | property f => exact Run.KnowsValue.grows h hr
  | objectProperty o name => exact Run.KnowsValue.grows h hr
  | call callee paren arguments => exact Run.KnowsValue.grows h hr
  | invoke f arguments => exact Run.KnowsValue.grows h hr

end Grows

namespace Standing

variable {spot : Spot} {frames : List FrameId} {r r' : Run} {part sub : Part}

/-- A task stands where it stood as the run goes on. -/
theorem kept (h : Standing spot frames r part) (hr : Run.Kept r r') :
    Standing spot frames r' part :=
  ⟨h.visited.grows hr.grows, hr.current ▸ h.surrounds.grows hr.grows⟩

/-- A part that the walk comes by next, when the innermost scope got names that are bound. -/
theorem after {w w' : Walk} {ps : List Place} {names : List Token}
    (h : Standing ⟨w, ps⟩ frames r part) (hadds : Scope.Adds names w.scopes w'.scopes)
    (hbinds : ∀ name ∈ names, ∀ frame ∈ frames.head?, r.machine.store.Binds frame name.lexeme)
    (hvisits : ∀ root, Visits root w ps part → Visits root w' ps sub) :
    Standing ⟨w', ps⟩ frames r sub := by
  obtain ⟨root, hroot, hv⟩ := h.visited
  exact ⟨⟨root, hroot, hvisits _ hv⟩, h.surrounds.chain, h.surrounds.aligned.adds hadds hbinds⟩

/-- A part that the walk comes by next, in the same scopes. -/
theorem next {w w' : Walk} {ps : List Place} (h : Standing ⟨w, ps⟩ frames r part)
    (hscopes : w'.scopes = w.scopes)
    (hvisits : ∀ root, Visits root w ps part → Visits root w' ps sub) :
    Standing ⟨w', ps⟩ frames r sub :=
  h.after (.of_eq hscopes) (fun _ hname => nomatch hname) hvisits

/-- The initializer or the superclass clause of a declaration that introduces a name. -/
theorem introduce {w w' : Walk} {ps : List Place} {s : Stmt} {name : Token}
    (h : Standing ⟨w, ps⟩ frames r (.statement s)) (hs : s.declared? = some name)
    (hadds : Scope.Adds [name] w.scopes w'.scopes)
    (hvisits : ∀ root, Visits root w ps (.statement s) →
      Visits root w' (Place.introduce s ps) sub) :
    Standing ⟨w', Place.introduce s ps⟩ frames r sub := by
  obtain ⟨root, hroot, hv⟩ := h.visited
  exact ⟨⟨root, hroot, hvisits _ hv⟩, h.surrounds.chain,
    h.surrounds.aligned.introduce hadds hs (hv.settled rfl)⟩

end Standing

end Lox.Eval
