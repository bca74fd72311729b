import Lox.Eval
import Lox.Proofs.Lowered.Resolving
import Lox.Proofs.Lowered.Store

/-!
# Computations of a program and of one with loops written out

`Exec.Lowered r w shape R x x'`: from machines that hold the same, running in frames for scopes of
the shape, the computations `x` and `x'` end alike. Either both give results that `R` relates, or
both fail with the same cause at the same token, and the machines hold the same again.

The two runs take different numbers of steps, so one may run out of fuel before the other. Which one
may is said by `Runs`: if the run that is followed ends, then so does the other one. There is one
law for each way in which computations are put together, one for a frame that the second run alone
makes, and one for each step on the machine.
-/

namespace Lox

open Eval

/-! ## Two runs -/

/-- One of two runs. -/
inductive Followed where
  | first
  | second
  deriving DecidableEq

/-- Two runs with these tables. If the one that is followed ends then so does the other one. -/
structure Runs where
  table : Table
  table' : Table
  followed : Followed

namespace Runs

/-- What is known of the references in the two programs. -/
def links (r : Runs) : Links :=
  .found r.table r.table'

/-- The run that is followed runs out of fuel no later than the other one: for a round of a loop
that is written out, the second one takes up to three steps for each step of the first. -/
def Covered (r : Runs) (fuel fuel' : Nat) : Prop :=
  match r.followed with
  | .first => 3 * fuel ≤ fuel'
  | .second => fuel' ≤ fuel

end Runs

/-- The runtime errors are the same, up to the line of the token. -/
structure RuntimeError.Same (e e' : RuntimeError) : Prop where
  cause : e'.cause = e.cause
  token : e.token.Same e'.token

variable {r : Runs} {w w' : FrameMap} {shape : Shape} {α β : Type}

/-- The machines hold the same, with the loops of the second program written out. -/
structure Machine.Lowered (r : Runs) (w : FrameMap) (m m' : Machine) : Prop where
  store : m.store.Lowered r.links w m'.store
  table : m.table = r.table
  table' : m'.table = r.table'
  input : m'.input = m.input
  output : m'.output = m.output
  host : m'.host = m.host
  global : w[m'.globals]? = some (m.globals, [])

/-- Machines may get stores that hold the same. -/
theorem Machine.Lowered.withStore {m m' : Machine} (h : m.Lowered r w m') {s s' : Store}
    (hs : s.Lowered r.links w' s') (hw : w <+: w') :
    Machine.Lowered r w' { m with store := s } { m' with store := s' } :=
  ⟨hs, h.table, h.table', h.input, h.output, h.host, FrameMap.grow hw h.global⟩

/-- Machines may be in any frames. -/
theorem Machine.Lowered.withCurrent {m m' : Machine} (h : m.Lowered r w m')
    (current current' : FrameId) :
    Machine.Lowered r w { m with current := current } { m' with current := current' } :=
  ⟨h.store, h.table, h.table', h.input, h.output, h.host, h.global⟩

/-- Both computations end, and in the same way, unless the one that is followed runs out of
fuel. -/
inductive EndLowered (r : Runs) (w : FrameMap) (current current' : FrameId)
    (R : FrameMap → α → α → Prop) :
    EStateM.Result Halt Machine α → EStateM.Result Halt Machine α → Prop where
  | ok {a a' : α} {m m' : Machine} (w' : FrameMap) (hw : w <+: w') (hm : m.Lowered r w' m')
      (hcurrent : m.current = current) (hcurrent' : m'.current = current') (ha : R w' a a') :
      EndLowered r w current current' R (.ok a m) (.ok a' m')
  | fault {e e' : RuntimeError} {m m' : Machine} (w' : FrameMap) (hw : w <+: w')
      (hm : m.Lowered r w' m') (hcurrent : m.current = current)
      (hcurrent' : m'.current = current') (he : e.Same e') :
      EndLowered r w current current' R (.error (.fault e) m) (.error (.fault e') m')
  | first {m : Machine} {x' : EStateM.Result Halt Machine α} (hr : r.followed = .first) :
      EndLowered r w current current' R (.error .outOfFuel m) x'
  | second {m' : Machine} {x : EStateM.Result Halt Machine α} (hr : r.followed = .second) :
      EndLowered r w current current' R x (.error .outOfFuel m')

/-- Ends are alike from an earlier frame map on, too. -/
theorem EndLowered.grows {current current' : FrameId} {R : FrameMap → α → α → Prop}
    {x x' : EStateM.Result Halt Machine α} (h : EndLowered r w' current current' R x x')
    (hw : w <+: w') : EndLowered r w current current' R x x' := by
  cases h with
  | ok w₁ hw₁ hm hcurrent hcurrent' ha => exact .ok w₁ (hw.trans hw₁) hm hcurrent hcurrent' ha
  | fault w₁ hw₁ hm hcurrent hcurrent' he => exact .fault w₁ (hw.trans hw₁) hm hcurrent hcurrent' he
  | first hr => exact .first hr
  | second hr => exact .second hr

/-- Computations that do the same in both runs. -/
def Exec.Lowered (r : Runs) (w : FrameMap) (shape : Shape) (R : FrameMap → α → α → Prop)
    (x x' : Exec α) : Prop :=
  ∀ w', w <+: w' → ∀ m m', m.Lowered r w' m' → w'[m'.current]? = some (m.current, shape) →
    EndLowered r w' m.current m'.current R (x m) (x' m')

namespace Exec.Lowered

variable {R : FrameMap → α → α → Prop} {Q : FrameMap → β → β → Prop} {x x' : Exec α}

/-! ## Laws -/

/-- Computations do the same when there are more frames. -/
theorem grow (h : Exec.Lowered r w shape R x x') (hw : w <+: w') :
    Exec.Lowered r w' shape R x x' :=
  fun w₁ hw₁ => h w₁ (hw.trans hw₁)

/-- Related values may be given back. -/
theorem pure {a a' : α} (h : ∀ w', w <+: w' → R w' a a') :
    Exec.Lowered r w shape R (pure a) (pure a') :=
  fun w' hw _ _ hm _ => .ok w' (List.prefix_refl _) hm rfl rfl (h w' hw)

/-- The run that is followed has no fuel left. -/
theorem spent (h : r.followed = .first ∧ x = Exec.outOfFuel ∨
    r.followed = .second ∧ x' = Exec.outOfFuel) : Exec.Lowered r w shape R x x' := by
  intro w₁ hw₁ m m' hm hcurrent
  rcases h with ⟨hr, rfl⟩ | ⟨hr, rfl⟩
  · exact .first hr
  · exact .second hr

/-- Computations go on alike from related results. -/
theorem bind {f f' : α → Exec β} (hx : Exec.Lowered r w shape R x x')
    (hf : ∀ w', w <+: w' → ∀ a a', R w' a a' → Exec.Lowered r w' shape Q (f a) (f' a')) :
    Exec.Lowered r w shape Q (x >>= f) (x' >>= f') := by
  intro w₁ hw₁ m m' hm hcurrent
  have hend := hx w₁ hw₁ m m' hm hcurrent
  show EndLowered r w₁ m.current m'.current Q (EStateM.bind x f m) (EStateM.bind x' f' m')
  unfold EStateM.bind
  generalize x m = result at hend
  generalize x' m' = result' at hend
  cases hend with
  | ok w₂ hw₂ hm₂ hc hc' ha =>
    -- the second computation starts where the first one ended, with no fewer frames
    have hrest := hf w₂ (hw₁.trans hw₂) _ _ ha w₂ (List.prefix_refl _) _ _ hm₂
      (by rw [hc, hc']; exact FrameMap.grow hw₂ hcurrent)
    rw [hc, hc'] at hrest
    exact hrest.grows hw₂
  | fault w₂ hw₂ hm₂ hc hc' he => exact .fault w₂ hw₂ hm₂ hc hc' he
  | first hr => exact .first hr
  | second hr => exact .second hr

/-- Both computations fail for the same cause at the same token. -/
theorem fail {t t' : Token} (cause : RuntimeCause) (ht : t.Same t') :
    Exec.Lowered r w shape R (Exec.fail t cause) (Exec.fail t' cause) :=
  fun w' _ _ _ hm _ => .fault w' (List.prefix_refl _) hm rfl rfl ⟨rfl, ht⟩

/-- Results that were worked out without the machines. -/
theorem ofExcept {t t' : Token} (ht : t.Same t') {result result' : Except RuntimeCause Value}
    (h : Value.ResultLike (Function.Lowered r.links w []) (Function.Lowered r.links w [true])
      result result') :
    Exec.Lowered r w shape (Value.Lowered r.links) (Exec.ofExcept t result)
      (Exec.ofExcept t' result') := by
  cases h with
  | ok ha => exact pure fun w' hw => Value.Lowered.grow ha hw
  | error cause => exact fail cause ht

/-- A computation with another frame as the current one. -/
theorem within {inner : Shape} {frame frame' : FrameId} (hframe : w[frame']? = some (frame, inner))
    (hx : Exec.Lowered r w inner R x x') :
    Exec.Lowered r w shape R (Exec.within frame x) (Exec.within frame' x') := by
  intro w₁ hw₁ m m' hm hcurrent
  have hend := hx w₁ hw₁ _ _ (hm.withCurrent frame frame') (FrameMap.grow hw₁ hframe)
  unfold Exec.within
  dsimp only
  generalize x { m with current := frame } = result at hend
  generalize x' { m' with current := frame' } = result' at hend
  -- whichever way the computation ends, the frames of the callers are put back
  cases hend with
  | ok w₂ hw₂ hm₂ _ _ ha =>
    exact .ok w₂ hw₂ (hm₂.withCurrent m.current m'.current) rfl rfl ha
  | fault w₂ hw₂ hm₂ _ _ he =>
    exact .fault w₂ hw₂ (hm₂.withCurrent m.current m'.current) rfl rfl he
  | first hr => exact .first hr
  | second hr => exact .second hr

/-- A computation that the second run does in a frame of its own. -/
theorem round (hx : Exec.Lowered r w (false :: shape) R x x') :
    Exec.Lowered r w shape R x (Exec.innerFrame >>= fun frame => Exec.within frame x') := by
  intro w₁ hw₁ m m' hm hcurrent
  have hnew : w₁ <+: w₁ ++ [(m.current, false :: shape)] := List.prefix_append _ _
  have hstore := hm.store.newRound hcurrent
  have hframe : (w₁ ++ [(m.current, false :: shape)])[m'.store.frames.size]? =
      some (m.current, false :: shape) := by
    rw [hm.store.size]
    exact FrameMap.push_new _ _
  have hm₁ := (hm.withStore hstore hnew).withCurrent m.current m'.store.frames.size
  have hend := hx _ (hw₁.trans hnew) _ _ hm₁ hframe
  show EndLowered r w₁ m.current m'.current R (x m) (Exec.within m'.store.frames.size x'
    { m' with store := (m'.store.newFrame (some m'.current)).2 })
  unfold Exec.within
  dsimp only at hend ⊢
  generalize x m = result at hend
  generalize x' _ = result' at hend ⊢
  cases hend with
  | ok w₂ hw₂ hm₂ hc _ ha =>
    exact .ok w₂ (hnew.trans hw₂) (hm₂.withCurrent _ m'.current) hc rfl ha
  | fault w₂ hw₂ hm₂ hc _ he =>
    exact .fault w₂ (hnew.trans hw₂) (hm₂.withCurrent _ m'.current) hc rfl he
  | first hr => exact .first hr
  | second hr => exact .second hr

/-- What is computed from the state. -/
theorem get {f f' : Machine → Exec β}
    (h : ∀ w', w <+: w' → ∀ m m', m.Lowered r w' m' → w'[m'.current]? = some (m.current, shape) →
      Exec.Lowered r w' shape Q (f m) (f' m')) :
    Exec.Lowered r w shape Q (get >>= f) (get >>= f') :=
  fun w' hw m m' hm hcurrent => h w' hw m m' hm hcurrent w' (List.prefix_refl _) m m' hm hcurrent

/-! ## Steps on the store -/

/-- Both computations make something new in the store, and what they give is related there. -/
theorem fromStore {f f' : Store → α × Store}
    (h : ∀ w₁, w <+: w₁ → ∀ s s', s.Lowered r.links w₁ s' →
      ∃ w₂, w₁ <+: w₂ ∧ (f s).2.Lowered r.links w₂ (f' s').2 ∧ R w₂ (f s).1 (f' s').1) :
    Exec.Lowered r w shape R (Exec.fromStore f) (Exec.fromStore f') := by
  intro w₁ hw₁ m m' hm hcurrent
  obtain ⟨w₂, hw₂, hs, hresult⟩ := h w₁ hw₁ _ _ hm.store
  exact .ok w₂ hw₂ (hm.withStore hs hw₂) rfl rfl hresult

/-- Both computations change their stores by functions that keep them related. -/
theorem modifyStore {f f' : Store → Store}
    (h : ∀ w₁, w <+: w₁ → ∀ s s', s.Lowered r.links w₁ s' →
      (f s).Lowered r.links w₁ (f' s')) :
    Exec.Lowered r w shape (fun _ _ _ => True) (Exec.modifyStore f) (Exec.modifyStore f') :=
  fun w₁ hw₁ _ _ hm _ =>
    .ok w₁ (List.prefix_refl _) (hm.withStore (h w₁ hw₁ _ _ hm.store) (List.prefix_refl _)) rfl rfl
      trivial

/-- The current frame, which is one of both runs, binds a name. -/
theorem define (hshared : shape.Shared) (name : String) {value value' : Value}
    (hvalue : value.Lowered r.links w value') (mutable : Bool) :
    Exec.Lowered r w shape (fun _ _ _ => True) (Exec.define name value mutable)
      (Exec.define name value' mutable) := by
  intro w₁ hw₁ m m' hm hcurrent
  have hs := hm.store.define hcurrent hshared name (hvalue.grow hw₁) mutable
  exact .ok w₁ (List.prefix_refl _) (hm.withStore hs (List.prefix_refl _)) rfl rfl trivial

end Exec.Lowered

/-! ## References -/

namespace Machine.Lowered

variable {m m' : Machine} (h : m.Lowered r w m')
  (hcurrent : w[m'.current]? = some (m.current, shape)) {site site' : Site}
variable (hlink : r.links.refers shape site site') (name : String)

include h

/-- A reference is found at the distance that the shape gives. -/
theorem distance (hlink : r.links.refers shape site site') :
    m'.table[site']? = m.table[site]?.map shape.far := by
  rw [h.table, h.table']
  exact hlink

include hcurrent hlink

/-- A name is found in both stores or in neither. -/
theorem lookUp : Option.Rel (Value.Lowered r.links w) (m.lookUp site name)
    (m'.lookUp site' name) := by
  unfold Machine.lookUp
  rw [h.distance hlink]
  cases m.table[site]? with
  | none => exact h.store.get?_global h.global name
  | some distance => exact h.store.getAt? hcurrent distance name

/-- An assignment goes to frames that stand for each other, or fails for one reason. -/
theorem target : Store.TargetLowered w (m.target site name) (m'.target site' name) := by
  unfold Machine.target
  rw [h.distance hlink]
  cases m.table[site]? with
  | none => exact h.store.target_global h.global name
  | some distance => exact h.store.targetAt hcurrent distance name

end Machine.Lowered

namespace Exec.Lowered

variable {site site' : Site} {name name' : Token}

/-- A reference denotes the same in both runs, or is not bound in either. -/
theorem lookUp (hlink : r.links.refers shape site site') (hname : name.Same name') :
    Exec.Lowered r w shape (Value.Lowered r.links) (Exec.lookUp site name)
      (Exec.lookUp site' name') := by
  refine get fun w₁ hw₁ m m' hm hcurrent => ?_
  have hfound := hm.lookUp hcurrent hlink name.lexeme
  rw [hname.lexeme]
  generalize m.lookUp site name.lexeme = value at hfound
  generalize m'.lookUp site' name.lexeme = value' at hfound
  cases hfound with
  | some hvalue => exact pure fun w₂ hw₂ => Value.Lowered.grow hvalue hw₂
  | none => exact fail .undefinedVariable hname

/-- An assignment succeeds or fails in both runs. -/
theorem assign (hlink : r.links.refers shape site site') (hname : name.Same name')
    {value value' : Value} (hvalue : value.Lowered r.links w value') :
    Exec.Lowered r w shape (fun _ _ _ => True) (Exec.assign site name value)
      (Exec.assign site' name' value') := by
  intro w₁ hw₁ m m' hm hcurrent
  have htarget := hm.target hcurrent hlink name.lexeme
  unfold Exec.assign
  rw [hname.lexeme]
  generalize m.target site name.lexeme = target at htarget
  generalize m'.target site' name.lexeme = target' at htarget
  cases htarget with
  | ok hframe hshared =>
    have hs := hm.store.define hframe hshared name.lexeme (hvalue.grow hw₁) true
    exact .ok w₁ (List.prefix_refl _) (hm.withStore hs (List.prefix_refl _)) rfl rfl trivial
  | error fault => exact .fault w₁ (List.prefix_refl _) hm rfl rfl ⟨rfl, hname⟩

/-! ## Input, output and native functions -/

/-- Both runs read the same line. -/
theorem takeLine :
    Exec.Lowered r w shape (fun _ line line' => line' = line) Exec.takeLine Exec.takeLine := by
  intro w₁ hw₁ m m' hm hcurrent
  refine .ok w₁ (List.prefix_refl _) ?_ rfl rfl ?_
  · exact ⟨hm.store, hm.table, hm.table', by rw [hm.input], hm.output, hm.host, hm.global⟩
  · rw [hm.input]

/-- Both runs write the same line. -/
theorem writeLine {value value' : Value} (hvalue : value.Lowered r.links w value') :
    Exec.Lowered r w shape (fun _ fits fits' => fits' = fits) (Exec.writeLine value)
      (Exec.writeLine value') := by
  intro w₁ hw₁ m m' hm hcurrent
  unfold Exec.writeLine
  rw [Value.Like.text (fun _ _ hf => hf.seen) hvalue]
  refine .ok w₁ (List.prefix_refl _) ?_ rfl rfl ?_
  · exact ⟨hm.store, hm.table, hm.table', hm.input, by rw [hm.output], hm.host, hm.global⟩
  · rw [hm.output]

/-- Native functions do the same. -/
theorem callNative (n : Native) {paren paren' : Token} (hparen : paren.Same paren')
    {arguments arguments' : List Value}
    (h : List.Forall₂ (Value.Lowered r.links w) arguments arguments') :
    Exec.Lowered r w shape (Value.Lowered r.links) (Eval.callNative n paren arguments)
      (Eval.callNative n paren' arguments') := by
  intro w₁ hw₁ m m' hm hcurrent
  have hhost : ∀ host, Machine.Lowered r w₁ { m with host } { m' with host } := fun host =>
    ⟨hm.store, hm.table, hm.table', hm.input, hm.output, rfl, hm.global⟩
  unfold Eval.callNative
  rw [Native.apply_like (fun _ _ hf => hf.seen) n h, hm.host]
  have hplain := fun a => @Native.apply_plain n arguments m.host a
  generalize n.apply arguments m.host = result at hplain
  obtain ⟨result, host⟩ := result
  cases result with
  | ok a => exact .ok w₁ (List.prefix_refl _) (hhost host) rfl rfl (hplain a rfl _ _)
  | error fault => exact .fault w₁ (List.prefix_refl _) (hhost host) rfl rfl ⟨rfl, hparen⟩

end Exec.Lowered

end Lox
