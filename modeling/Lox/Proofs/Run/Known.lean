import Lox.Proofs.Run.Agreement

/-!
# Runs that know their values

A run knows a function if the walk over a tree that was run came by its declaration, and the frames
around the function were made for the scopes that were open there. `Run.Sound`: the run knows all
values in its store, and what its log has recorded agrees with resolving. As a run goes on it keeps
knowing what it knows (`Run.Grows`).
-/

namespace Lox.Eval

/-! ## Frames and scopes -/

/-- The frames were made for the scopes, innermost first, and bind the names that the scopes hold,
except those that a declaration is just introducing. -/
inductive Aligned (r : Run) : List FrameId → List Scope → List Place → Prop where
  | nil : Aligned r [] [] []
  | cons {frame : FrameId} {scope : Scope} {place : Place} {frames : List FrameId}
      {scopes : List Scope} {ps : List Place} (hlt : frame < r.machine.store.frames.size)
      (hregion : r.history.origins.regions frame = some place.region)
      (hbinds : ∀ name, scope.contains name = true →
        r.machine.store.Binds frame name ∨ Introduces place name)
      (h : Aligned r frames scopes ps) : Aligned r (frame :: frames) (scope :: scopes) (place :: ps)

/-- The chain of `frame` consists of the frames and the globals, and the frames were made for the
scopes. -/
structure Surrounds (r : Run) (frame : FrameId) (frames : List FrameId) (scopes : List Scope)
    (ps : List Place) : Prop where
  chain : r.machine.store.Chain frame (frames ++ [r.machine.globals])
  aligned : Aligned r frames scopes ps

/-! ## Values -/

namespace Run

/-- The run comes from a tree over which the walk came by the part. -/
def Visited (r : Run) (w : Walk) (ps : List Place) (part : Part) : Prop :=
  ∃ root ∈ r.history.origins.roots, Visits root.part w ps part

/-- What a run knows of every function: its serial number is drawn, and a getter takes no
arguments. -/
structure Made (r : Run) (f : Function) : Prop where
  serial : f.serial < r.machine.store.nextSerial
  getter : f.kind = .getter → f.arity = 0

/-- The frames around the function were made for the scopes around its declaration. -/
structure KnowsFunction (r : Run) (f : Function) : Prop extends Made r f where
  place : ∃ (w : Walk) (ps : List Place) (role : FunctionContext),
    r.Visited w ps (.function f.declaration role) ∧
    Surrounds r f.closure (r.history.origins.homes f.serial) w.scopes ps

/-- The frames around the member of a class were made for the scopes around its declaration, but
for the one that is to hold the receiver. -/
structure KnowsMember (r : Run) (f : Function) : Prop extends Made r f where
  place : ∃ (w : Walk) (ps : List Place) (role : FunctionContext),
    r.Visited (w.openedWith "this") (⟨.receiver f.declaration, none⟩ :: ps)
      (.function f.declaration role) ∧
    Surrounds r f.closure (r.history.origins.homes f.serial) w.scopes ps

/-- The members of the class are known, and those that are called as setters are setters of one
argument. -/
structure KnowsClass (r : Run) (c : Class) : Prop where
  method : ∀ name f, c.findMethod name = some f → r.KnowsMember f
  setter : ∀ property f, c.findMethod (setterName property) = some f →
    f.kind = .setter ∧ f.arity = 1
  classMethod : ∀ name f, c.findClassMethod name = some f → r.KnowsMember f

/-- The functions in the value are known. -/
def KnowsValue (r : Run) : Value → Prop
  | .function f => r.KnowsFunction f
  | .cls c => r.KnowsClass c
  | .object o => r.KnowsClass o.cls
  | .nil | .bool _ | .number _ | .string _ | .native _ _ => True

/-- All that the run holds is known, and its log agrees with resolving. -/
structure Sound (r : Run) : Prop where
  bindings : ∀ frame name b, r.machine.store.binding? frame name = some b → r.KnowsValue b.value
  fields : ∀ o name v, r.machine.store.field? o name = some v → r.KnowsValue v
  superclass : ∀ frame d, frame < r.machine.store.frames.size →
    r.history.origins.regions frame = some (.superclass d) →
    ∃ c mutable, r.machine.store.binding? frame "super" = some ⟨.cls c, mutable⟩
  globals : r.machine.store.Chain r.machine.globals [r.machine.globals]
  accepted : ∀ root ∈ r.history.origins.roots, Accepted r.machine.table root.part
  log : ∀ ev ∈ r.history.log, ev.Agrees

/-- The second run comes after the first one. -/
structure Grows (r r' : Run) : Prop where
  store : r.machine.store.Grows r'.machine.store
  regions : ∀ frame < r.machine.store.frames.size,
    r'.history.origins.regions frame = r.history.origins.regions frame
  homes : ∀ serial < r.machine.store.nextSerial,
    r'.history.origins.homes serial = r.history.origins.homes serial
  roots : ∀ root ∈ r.history.origins.roots, root ∈ r'.history.origins.roots
  globals : r'.machine.globals = r.machine.globals

variable {r r' r'' : Run}

theorem Grows.refl (r : Run) : Grows r r :=
  ⟨.refl _, fun _ _ => rfl, fun _ _ => rfl, fun _ h => h, rfl⟩

/-- What comes later still comes after. -/
theorem Grows.trans (h : Grows r r') (h' : Grows r' r'') : Grows r r'' where
  store := h.store.trans h'.store
  regions frame hf := by
    rw [h'.regions frame (Nat.lt_of_lt_of_le hf h.store.size), h.regions frame hf]
  homes serial hs := by
    rw [h'.homes serial (Nat.lt_of_lt_of_le hs h.store.serial), h.homes serial hs]
  roots root hroot := h'.roots root (h.roots root hroot)
  globals := h'.globals.trans h.globals

end Run

/-! ## What stays known -/

section Grows

variable {r r' : Run}

/-- Frames bind the names of their scopes however the run goes on. -/
theorem Aligned.grows {frames : List FrameId} {scopes : List Scope} {ps : List Place}
    (h : Aligned r frames scopes ps) (hr : r.Grows r') : Aligned r' frames scopes ps := by
  induction h with
  | nil => exact .nil
  | cons hlt hregion hbinds _ ih =>
    refine .cons (Nat.lt_of_lt_of_le hlt hr.store.size) ((hr.regions _ hlt).trans hregion) ?_ ih
    intro name hname
    exact (hbinds name hname).imp_left (hr.store.binds _ name)

/-- The frames around stay those that were made for the scopes. -/
theorem Surrounds.grows {frame : FrameId} {frames : List FrameId} {scopes : List Scope}
    {ps : List Place} (h : Surrounds r frame frames scopes ps) (hr : r.Grows r') :
    Surrounds r' frame frames scopes ps :=
  ⟨hr.globals ▸ h.chain.grows hr.store, h.aligned.grows hr⟩

namespace Run

/-- A part that was visited stays so. -/
theorem Visited.grows {w : Walk} {ps : List Place} {part : Part} (h : r.Visited w ps part)
    (hr : r.Grows r') : r'.Visited w ps part := by
  obtain ⟨root, hroot, hvisits⟩ := h
  exact ⟨root, hr.roots root hroot, hvisits⟩

theorem Made.grows {f : Function} (h : r.Made f) (hr : r.Grows r') : r'.Made f :=
  ⟨Nat.lt_of_lt_of_le h.serial hr.store.serial, h.getter⟩

/-- What is known of a function stays known. -/
theorem KnowsFunction.grows {f : Function} (h : r.KnowsFunction f) (hr : r.Grows r') :
    r'.KnowsFunction f := by
  obtain ⟨w, ps, role, hvisited, hsurrounds⟩ := h.place
  refine ⟨h.toMade.grows hr, w, ps, role, hvisited.grows hr, ?_⟩
  rw [hr.homes _ h.serial]
  exact hsurrounds.grows hr

/-- What is known of a member stays known. -/
theorem KnowsMember.grows {f : Function} (h : r.KnowsMember f) (hr : r.Grows r') :
    r'.KnowsMember f := by
  obtain ⟨w, ps, role, hvisited, hsurrounds⟩ := h.place
  refine ⟨h.toMade.grows hr, w, ps, role, hvisited.grows hr, ?_⟩
  rw [hr.homes _ h.serial]
  exact hsurrounds.grows hr

/-- What is known of a class stays known. -/
theorem KnowsClass.grows {c : Class} (h : r.KnowsClass c) (hr : r.Grows r') : r'.KnowsClass c :=
  ⟨fun name f hf => (h.method name f hf).grows hr, h.setter,
    fun name f hf => (h.classMethod name f hf).grows hr⟩

/-- What is known of a value stays known. -/
theorem KnowsValue.grows {v : Value} (h : r.KnowsValue v) (hr : r.Grows r') : r'.KnowsValue v := by
  cases v with
  | function f => exact KnowsFunction.grows h hr
  | cls c => exact KnowsClass.grows h hr
  | object o => exact KnowsClass.grows h hr
  | _ => trivial

end Run

end Grows

end Lox.Eval
