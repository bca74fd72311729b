import Lox.Proofs.Run.References

/-!
# Rules for layers

How a layer meets the contract, one rule for each way in which a layer goes on: a step that leaves
the store alone (`Quiet`), a step that is known to succeed, a task started, a frame entered.
-/

namespace Lox.Eval

open Exec

/-! ## Steps that leave the store alone -/

/-- The machines differ at most in input, output and host. -/
structure Unchanged (m m' : Machine) : Prop where
  store : m'.store = m.store
  current : m'.current = m.current
  globals : m'.globals = m.globals
  table : m'.table = m.table

theorem Unchanged.refl (m : Machine) : Unchanged m m :=
  ⟨rfl, rfl, rfl, rfl⟩

theorem Unchanged.trans {m m' m'' : Machine} (h : Unchanged m m') (h' : Unchanged m' m'') :
    Unchanged m m'' :=
  ⟨h'.store.trans h.store, h'.current.trans h.current, h'.globals.trans h.globals,
    h'.table.trans h.table⟩

/-- However the computation ends, it changes at most input, output and host. -/
def Quiet {α : Type} (x : Exec α) : Prop :=
  ∀ m, match x m with
    | .ok _ m' | .error _ m' => Unchanged m m'

section Quiet

variable {α β : Type}

/-- Giving back a value changes nothing. -/
theorem Quiet.pure (a : α) : Quiet (pure a : Exec α) :=
  fun m => .refl m

/-- Failing changes nothing. -/
theorem Quiet.fail (token : Token) (cause : RuntimeCause) : Quiet (fail token cause : Exec α) :=
  fun m => .refl m

/-- Computations that are quiet are so one after the other. -/
theorem Quiet.bind {x : Exec α} {f : α → Exec β} (hx : Quiet x) (hf : ∀ a, Quiet (f a)) :
    Quiet (x >>= f) := by
  intro m
  have hm := hx m
  show match EStateM.bind x f m with
    | .ok _ m' | .error _ m' => Unchanged m m'
  unfold EStateM.bind
  cases hxm : x m with
  | error e m' =>
    rw [hxm] at hm
    exact hm
  | ok a m' =>
    rw [hxm] at hm
    have hm' := hf a m'
    dsimp only
    cases hfm : f a m' with
    | ok b m'' =>
      rw [hfm] at hm'
      exact hm.trans hm'
    | error e m'' =>
      rw [hfm] at hm'
      exact hm.trans hm'

theorem Quiet.get : Quiet (get : Exec Machine) :=
  fun m => .refl m

/-- A result that was worked out without the machine. -/
theorem Quiet.ofExcept (token : Token) (result : Except RuntimeCause α) :
    Quiet (ofExcept token result) := by
  cases result with
  | ok a => exact .pure a
  | error cause => exact .fail token cause

/-- Looking up a name changes nothing. -/
theorem Quiet.lookUp (site : Site) (name : Token) : Quiet (lookUp site name) := by
  refine .bind .get fun m => ?_
  split
  next => exact .pure _
  next => exact .fail _ _

/-- Reading a line changes the input alone. -/
theorem Quiet.typedLine (keyword : Token) : Quiet (takeLine >>= typedValue keyword) := by
  refine .bind (fun m => ⟨rfl, rfl, rfl, rfl⟩) fun line => ?_
  cases line with
  | absent => exact .pure _
  | text s => exact .pure _
  | unreadable => exact .fail _ _

/-- Printing changes the output alone. -/
theorem Quiet.print (keyword : Token) (value : Value) : Quiet (print keyword value) := by
  refine .bind (fun m => ⟨rfl, rfl, rfl, rfl⟩) fun fits => ?_
  cases fits with
  | false => exact .fail _ _
  | true => exact .pure _

/-- A native function may ask the host, and leaves the store alone. -/
theorem Quiet.callNative (n : Native) (paren : Token) (arguments : List Value) :
    Quiet (callNative n paren arguments) := by
  intro m
  unfold Eval.callNative
  rcases n.apply arguments m.host with ⟨_ | _, host⟩
  · exact ⟨rfl, rfl, rfl, rfl⟩
  · exact ⟨rfl, rfl, rfl, rfl⟩

/-- Checking a superclass changes nothing. -/
theorem Quiet.superclassOf (d : ClassDecl) (clause : Expr) (value : Value) :
    Quiet (superclassOf d clause value) := by
  unfold Eval.superclassOf
  split
  next => exact .pure _
  next =>
    split
    next => exact .fail _ _
    next => exact .fail _ _

/-- Taking the result of a call changes nothing. -/
theorem Quiet.callResult (f : Function) (flow : Flow) : Quiet (callResult f flow) := by
  unfold Eval.callResult
  split
  next => exact .bind .get fun m => .pure _
  next =>
    split
    next => exact .pure _
    next => exact .pure _

/-- Finding a method of a superclass changes nothing; making the method does. -/
theorem Quiet.inheritedSource (site : Site) (keyword method : Token) :
    Quiet (inheritedSource site keyword method) := by
  refine .bind .get fun m => ?_
  split
  next => exact .fail _ _
  next =>
    split
    next =>
      dsimp only
      split
      next => exact .pure _
      next => exact .fail _ _
    next => exact .fail _ _

end Quiet

/-- A run stays sound through a step that leaves the store alone. -/
theorem Run.Sound.quiet {r : Run} (h : r.Sound) (around : Surroundings) (mark : Mark) {m : Machine}
    (hm : Unchanged r.machine m) : Run.Kept r (r.stepTo around mark m) := by
  have hkept := h.remembering around mark m.store
  obtain ⟨hgrows, hsound⟩ := hkept.sound.machine hm.store hm.globals hm.table
  exact ⟨hkept.grows.trans hgrows, hsound, hm.current, hm.table, rfl⟩

/-- A run stays sound through a step that binds a name. -/
theorem Run.Sound.defining {r : Run} (h : r.Sound) (around : Surroundings) (mark : Mark)
    (frame : FrameId) {name : String} {value : Value} (mutable : Bool) (hvalue : r.KnowsValue value)
    (hname : name ≠ "super") :
    Run.Kept r (r.stepTo around mark
      { r.machine with store := r.machine.store.define frame name value mutable }) := by
  have hkept := h.remembering around mark (r.machine.store.define frame name value mutable)
  refine hkept.trans (hkept.sound.define (hvalue.grows (hkept.grows.trans ?_)) (.inl hname))
  exact Run.grows_withStore (Store.define_grows ..)

/-- The moment at which a step is about to be taken. -/
def Run.moment (around : Surroundings) (mark : Mark) (r : Run) : Event :=
  ⟨around, r.history.origins, r.machine, .step mark none r.machine⟩

/-- A step that agrees may be logged. -/
theorem Run.Kept.took {r : Run} {around : Surroundings} {mark : Mark} {m : Machine}
    (h : Run.Kept r (r.stepTo around mark m)) (hmark : mark.Agrees (r.moment around mark))
    (halt : Option Halt) : Run.Kept r (r.took around mark halt m) :=
  h.trans (h.sound.logged (hmark.after halt m))

/-! ## Rules -/

section Rules

variable {α β : Type} {next : β → Layer α} {Q : α → Run → Prop} {around : Surroundings} {r : Run}
variable {x : Exec β} {mark : Mark}

/-- A step that leaves the store alone. -/
theorem quiet_meets (h : r.Sound) (hx : Quiet x)
    (hmark : mark.Agrees (r.moment around mark))
    (hnext : ∀ b m r', x r.machine = .ok b m → Run.Kept r r' →
      (next b).Meets lexical around Q r') :
    (Layer.step x mark next).Meets lexical around Q r := by
  have hm := hx r.machine
  have hstep : ∀ halt m, Unchanged r.machine m → Run.Kept r (r.took around mark halt m) :=
    fun halt m hm => (h.quiet around mark hm).took hmark halt
  unfold Layer.Meets observe
  cases hxm : x r.machine with
  | ok b m =>
    rw [hxm] at hm
    exact ⟨hstep none m hm, hnext b m _ hxm (hstep none m hm)⟩
  | error e m =>
    rw [hxm] at hm
    exact hstep (some e) m hm

/-- A step that only fails. -/
theorem fail_meets (h : r.Sound) (token : Token) (cause : RuntimeCause) :
    (Layer.step (fail token cause) .nothing next).Meets lexical around Q r :=
  quiet_meets h (.fail token cause) .nothing fun _ _ _ hx => nomatch hx

/-- A step that is known to succeed. -/
theorem ok_meets {b : β} {m : Machine} (hx : x r.machine = .ok b m)
    (hmark : mark.Agrees (r.moment around mark))
    (hkept : Run.Kept r (r.stepTo around mark m))
    (hnext : Run.Kept r (r.took around mark none m) →
      (r.stepTo around mark m).Grows (r.took around mark none m) →
        (next b).Meets lexical around Q (r.took around mark none m)) :
    (Layer.step x mark next).Meets lexical around Q r := by
  have hlogged : Run.Kept (r.stepTo around mark m) (r.took around mark none m) :=
    hkept.sound.logged (hmark.after none m)
  unfold Layer.Meets observe
  rw [hx]
  exact ⟨hkept.took hmark none, hnext (hkept.took hmark none) hlogged.grows⟩

/-- A task may be started where it is ready, and the rest goes on from how it ended. -/
theorem start_meets {t : Task} {next : t.Result → Layer α} (spot : Spot) (h : r.Sound)
    (hready : t.Ready spot around r)
    (hnext : ∀ a r', Run.Kept r r' → t.Ended spot around r' a →
      (next a).Meets lexical around Q r') :
    (Layer.start t next).Meets lexical around Q r :=
  ⟨spot, ⟨h, hready⟩, hnext⟩

/-- Going into another frame loses nothing. -/
theorem grows_atFrame (frame : FrameId) (r : Run) : r.Grows (r.atFrame frame) :=
  ⟨.refl _, fun _ _ => rfl, fun _ _ => rfl, fun _ h => h, rfl⟩

/-- The former frame is current again afterwards. -/
theorem Run.Kept.leave {r' : Run} {frame : FrameId} (h : Run.Kept (r.atFrame frame) r') :
    Run.Kept r (r'.atFrame r.machine.current) := by
  obtain ⟨hgrows, hsound⟩ := h.sound.machine
    (m := { r'.machine with current := r.machine.current }) rfl rfl rfl
  exact ⟨((grows_atFrame frame r).trans h.grows).trans hgrows, hsound, rfl, h.table, h.roots⟩

/-- A task started in a frame. -/
theorem enter_meets {frame : FrameId} {f : Option Function} {t : Task} {next : t.Result → Layer α}
    (spot : Spot) (h : r.Sound)
    (hready : t.Ready spot (around.enter frame f r.history.origins) (r.atFrame frame))
    (hnext : ∀ a r', Run.Kept r r' → t.Ended spot (around.enter frame f r.history.origins) r' a →
      (next a).Meets lexical around Q r') :
    (Layer.enter frame f t next).Meets lexical around Q r := by
  obtain ⟨_, hsound⟩ := h.machine (m := { r.machine with current := frame }) rfl rfl rfl
  refine ⟨spot, ⟨hsound, hready⟩, fun a r' hkept hended => ?_, fun r' hkept => hkept.leave⟩
  exact ⟨hkept.leave, hnext a _ hkept.leave (hended.grows (grows_atFrame _ r'))⟩

end Rules

end Lox.Eval
