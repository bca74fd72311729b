import Lox.Proofs.Run.Contract
import Lox.Proofs.Scope.Distance
import Lox.Proofs.Store.Chain

/-!
# What a run should do at its moments

A reference is used where resolving came by it: the frames around it were made for the scopes that
were open there, one for one, and its name is found in the frame of the scope that declares it
(`Agreement`). A statement ends in a way that something around it waits for (`Task.EndsWell`).
-/

namespace Lox

/-- The flow asks a loop around it to end or to go on. -/
def Flow.IsJump : Flow → Prop
  | .breakLoop | .continueLoop => True
  | .normal | .returned _ => False

/-- The ends of a statement that are for something around it to handle. -/
def Flow.Allowed (c : Context) : Flow → Prop
  | .normal => True
  | .breakLoop | .continueLoop => c.loopDepth ≠ 0
  | .returned _ => c.function ≠ .none

theorem Flow.Allowed.not_jump {c : Context} {flow : Flow} (h : flow.Allowed c)
    (hc : c.loopDepth = 0) : ¬flow.IsJump := by
  cases flow with
  | breakLoop => exact absurd hc h
  | continueLoop => exact absurd hc h
  | normal => exact id
  | returned value => exact id

theorem Flow.Allowed.eq_normal {c : Context} {flow : Flow} (h : flow.Allowed c)
    (hfunction : c.function = .none) (hc : c.loopDepth = 0) : flow = .normal := by
  cases flow with
  | normal => rfl
  | breakLoop => exact absurd hc h
  | continueLoop => exact absurd hc h
  | returned value => exact absurd hfunction h

namespace Eval

/-! ## References -/

/-- The part that a walk over a tree begins with. -/
def Root.part : Root → Part
  | .program ss => .statements ss
  | .expression e => .expression e

/-- The declaration that a place waits for introduces the name. -/
def Introduces (place : Place) (name : String) : Prop :=
  ∃ s declared, place.pending = some s ∧ s.declared? = some declared ∧ declared.lexeme = name

/-- At the moment at which the reference `e` to `name` is used, the walk over the tree `root` came
by it in the state `w` between the places `ps`, and the frames are what the places say. -/
structure Agreement (ev : Event) (e : Expr) (site : Site) (name : Token) (root : Root) (w : Walk)
    (ps : List Place) : Prop where
  reference : e.reference? = some (site, name)
  known : root ∈ ev.origins.roots
  visits : Visits root.part w ps (.expression e)
  /-- There are as many frames below the globals as scopes were open. -/
  depth : ev.around.frames.length = w.scopes.length
  /-- The chain of the current frame consists of the frames entered and the globals. -/
  chain : ∀ d, ev.machine.store.ancestor? ev.machine.current d =
    (ev.around.frames ++ [ev.machine.globals])[d]?
  /-- The frames entered were made for the scopes that were open. -/
  regions : ev.around.frames.map ev.origins.regions = ps.map fun p => some p.region
  /-- The distance of the reference is the one at which the walk found its name. -/
  distance : ev.machine.table[site]? = w.distance? name.lexeme
  /-- A reference with a distance finds its name in the frame at that distance, unless it stands in
  the initializer or the superclass clause of the declaration that introduces the name there. -/
  found : ∀ d, ev.machine.table[site]? = some d → ∃ frame place,
    ev.machine.store.ancestor? ev.machine.current d = some frame ∧
    ev.around.frames[d]? = some frame ∧
      ps[d]? = some place ∧ ev.origins.regions frame = some place.region ∧
      (ev.machine.store.Binds frame name.lexeme ∨ Introduces place name.lexeme)
  /-- Only there can a variable with a distance be found undefined. -/
  undefined : ∀ d, ev.machine.table[site]? = some d →
    ev.machine.lookUp site name.lexeme = none ∨
      ev.machine.target site name.lexeme = .error .undefined →
    ∃ place, ps[d]? = some place ∧ Introduces place name.lexeme
  /-- `this` always has a distance and is always found. -/
  receiver : ∀ keyword, e = .receiver site keyword → ∃ d frame,
    ev.machine.table[site]? = some d ∧
      ev.machine.store.ancestor? ev.machine.current d = some frame ∧
      ev.machine.store.Binds frame keyword.lexeme
  /-- `super` always has a distance and is always found, and it is a class. -/
  inherited : ∀ keyword method, e = .inherited site keyword method → ∃ d c,
    ev.machine.table[site]? = some d ∧
      ev.machine.store.getAt? ev.machine.current d keyword.lexeme = some (.cls c)

/-- The expression whose reference is used at this moment. -/
def Occurrence.refers? : Occurrence → Option Expr
  | .step (.refers e) _ _ => some e
  | _ => none

theorem Occurrence.refers?_some {what : Occurrence} {e : Expr} (h : what.refers? = some e) :
    ∃ halt after, what = .step (.refers e) halt after := by
  unfold Occurrence.refers? at h
  split at h
  next e' halt after =>
    cases h
    exact ⟨halt, after, rfl⟩
  next => cases h

/-! ## Names bound by steps -/

/-- The name that a step declares in the current frame. -/
def Mark.declared? : Mark → Option Token
  | .declares s => s.declared?
  | .members d => some d.name
  | _ => none

/-- The name that a step may assign to. -/
def Mark.assigned? : Mark → Option Token
  | .refers (.assign _ name _) | .refers (.variable _ name) => some name
  | _ => none

/-- Where a step is taken, its reference agrees with resolving, and the names that it declares or
assigns to can name variables. -/
structure Mark.Agrees (ev : Event) (mark : Mark) : Prop where
  refers : ∀ e, mark = .refers e → ∃ site name root w ps, Agreement ev e site name root w ps
  declared : ∀ name ∈ mark.declared?, name.Plain
  assigned : ∀ name ∈ mark.assigned?, name.Plain

/-! ## Ends of statements -/

/-- A task ends well: a statement of a program runs to its end, a loop lets no jump out, and nor
does the body of a function. -/
def Task.EndsWell (outer : List Task) : (t : Task) → t.Result → Prop
  | .statement s, flow =>
    (outer = [] → flow = .normal) ∧
      ∀ condition body increment, s = .loop condition body increment → ¬flow.IsJump
  | .statements _, flow =>
    ∀ f arguments rest, outer = .invoke f arguments :: rest → ¬flow.IsJump
  | .rounds _ _ _, flow => ¬flow.IsJump
  | .clause _, _ | .expression _, _ | .optional _, _ | .expressions _, _ | .property _, _
  | .objectProperty _ _, _ | .call _ _ _, _ | .invoke _ _, _ => True

/-- What should hold at a moment. -/
def Event.Agrees (ev : Event) : Prop :=
  match ev.occurrence with
  | .step mark _ _ => mark.Agrees ev
  | .ends t result => t.EndsWell ev.around.tasks result

/-- What is asked of a step does not depend on how the step ends. -/
theorem Mark.Agrees.after {around : Surroundings} {origins : Origins} {machine : Machine}
    {what : Occurrence} {mark : Mark} (h : mark.Agrees ⟨around, origins, machine, what⟩)
    (halt : Option Halt) (m : Machine) :
    Event.Agrees ⟨around, origins, machine, .step mark halt m⟩ := by
  refine ⟨fun e he => ?_, h.declared, h.assigned⟩
  obtain ⟨site, name, root, w, ps, hagrees⟩ := h.refers e he
  exact ⟨site, name, root, w, ps, { hagrees with }⟩

/-- A step that uses no reference. -/
theorem Mark.Agrees.of_declared {ev : Event} {mark : Mark} (hrefers : ∀ e, mark ≠ .refers e)
    (hdeclared : ∀ name ∈ mark.declared?, name.Plain) : mark.Agrees ev := by
  refine ⟨fun e he => absurd he (hrefers e), hdeclared, fun name hname => ?_⟩
  cases mark with
  | refers e => exact absurd rfl (hrefers e)
  | _ => cases hname

/-- A step that binds nothing by name agrees. -/
theorem Mark.Agrees.nothing {ev : Event} : Mark.Agrees ev .nothing :=
  .of_declared (by simp) (by simp [Mark.declared?])

end Eval

end Lox
