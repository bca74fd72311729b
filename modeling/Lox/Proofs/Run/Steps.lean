import Lox.Proofs.Run.Known

/-!
# What steps keep

Each change that a step makes to the machine, from a sound run to a sound run. The history is that
after the step throughout: what it says of frames and functions that are not made yet does not
matter (`Run.Sound.remembering`).
-/

namespace Lox.Eval

namespace Run

/-- The run with another store. -/
def withStore (s : Store) (r : Run) : Run :=
  { r with machine.store := s }

/-- The run with the origins after a step that leaves the store `s`. -/
def remembering (around : Surroundings) (mark : Mark) (s : Store) (r : Run) : Run :=
  { r with history.origins := r.history.origins.after around mark r.machine.store s }

/-- The run has gone on and is sound, with the same trees and in the frame in which it was. -/
structure Kept (r r' : Run) : Prop where
  grows : r.Grows r'
  sound : r'.Sound
  current : r'.machine.current = r.machine.current
  table : r'.machine.table = r.machine.table
  roots : r'.history.origins.roots = r.history.origins.roots

variable {r r' r'' : Run}

theorem Kept.refl (h : r.Sound) : Kept r r :=
  ⟨.refl r, h, rfl, rfl, rfl⟩

theorem Kept.trans (h : Kept r r') (h' : Kept r' r'') : Kept r r'' :=
  ⟨h.grows.trans h'.grows, h'.sound, h'.current.trans h.current, h'.table.trans h.table,
    h'.roots.trans h.roots⟩

/-! ## Histories -/

theorem grows_remembering (around : Surroundings) (mark : Mark) (s : Store) (r : Run) :
    r.Grows (r.remembering around mark s) where
  store := .refl _
  regions _ hf := if_pos hf
  homes _ hs := if_pos hs
  roots _ h := h
  globals := rfl

/-- What is remembered of a step does not affect what was there before it. -/
theorem Sound.remembering (h : r.Sound) (around : Surroundings) (mark : Mark) (s : Store) :
    Kept r (r.remembering around mark s) := by
  have hgrows := grows_remembering around mark s r
  refine ⟨hgrows, ⟨fun frame name b hb => ?_, fun o name v hv => ?_, fun frame d hf hr => ?_,
    h.globals, h.accepted, h.log⟩, rfl, rfl, rfl⟩
  · exact (h.bindings frame name b hb).grows hgrows
  · exact (h.fields o name v hv).grows hgrows
  · rw [hgrows.regions frame hf] at hr
    exact h.superclass frame d hf hr

/-- A moment that agrees may be logged. -/
theorem Sound.logged (h : r.Sound) {ev : Event} (hagrees : ev.Agrees) : Kept r (r.logged ev) := by
  have hgrows : r.Grows (r.logged ev) :=
    ⟨.refl _, fun _ _ => rfl, fun _ _ => rfl, fun _ h => h, rfl⟩
  refine ⟨hgrows, ⟨fun frame name b hb => ?_, fun o name v hv => ?_, h.superclass, h.globals,
    h.accepted, fun ev hev => ?_⟩, rfl, rfl, rfl⟩
  · exact (h.bindings frame name b hb).grows hgrows
  · exact (h.fields o name v hv).grows hgrows
  · rcases List.mem_append.mp hev with hev | hev
    · exact h.log ev hev
    · cases List.mem_singleton.mp hev
      exact hagrees

/-- Input, output and host do not matter, nor does the current frame. -/
theorem Sound.machine (h : r.Sound) {m : Machine} (hstore : m.store = r.machine.store)
    (hglobals : m.globals = r.machine.globals) (htable : m.table = r.machine.table) :
    r.Grows { r with machine := m } ∧ Sound { r with machine := m } := by
  have hgrows : r.Grows { r with machine := m } :=
    ⟨by rw [hstore]; exact .refl _, fun _ _ => rfl, fun _ _ => rfl, fun _ h => h, hglobals⟩
  refine ⟨hgrows, fun frame name b hb => ?_, fun o name v hv => ?_, fun frame d hf hr => ?_, ?_,
    fun root hroot => ?_, h.log⟩
  · exact (h.bindings frame name b (by rwa [← hstore])).grows hgrows
  · exact (h.fields o name v (by rwa [← hstore])).grows hgrows
  · rw [hstore] at hf ⊢
    exact h.superclass frame d hf hr
  · rw [hstore, hglobals]
    exact h.globals
  · rw [htable]
    exact h.accepted root hroot

/-! ## Stores -/

theorem grows_withStore {s : Store} (hs : r.machine.store.Grows s) : r.Grows (r.withStore s) :=
  ⟨hs, fun _ _ => rfl, fun _ _ => rfl, fun _ h => h, rfl⟩

/-- A run stays sound if its store grows, with known values and with `super` where it should be. -/
theorem Sound.withStore (h : r.Sound) {s : Store} (hs : r.machine.store.Grows s)
    (hgains : r.machine.store.Gains s (r.withStore s).KnowsValue)
    (hsuper : ∀ frame d, frame < s.frames.size →
      r.history.origins.regions frame = some (.superclass d) →
      ∃ c mutable, s.binding? frame "super" = some ⟨.cls c, mutable⟩) :
    Kept r (r.withStore s) := by
  have hgrows := grows_withStore hs
  refine ⟨hgrows, ⟨fun frame name b hb => ?_, fun o name v hv => ?_, hsuper, h.globals.grows hs,
    h.accepted, h.log⟩, rfl, rfl, rfl⟩
  · rcases hgains.bindings frame name b hb with hold | hnew
    · exact (h.bindings frame name b hold).grows hgrows
    · exact hnew
  · rcases hgains.fields o name v hv with hold | hnew
    · exact (h.fields o name v hold).grows hgrows
    · exact hnew

/-- A name is bound to a known value; only a class is bound to `super`. -/
theorem Sound.define (h : r.Sound) {frame : FrameId} {name : String} {value : Value}
    {mutable : Bool}
    (hvalue : (r.withStore (r.machine.store.define frame name value mutable)).KnowsValue value)
    (hname : name ≠ "super" ∨ ∃ c, value = .cls c) :
    Kept r (r.withStore (r.machine.store.define frame name value mutable)) := by
  refine h.withStore (Store.define_grows ..) (Store.gains_define _ _ _ _ _ hvalue)
    fun other d hlt hregion => ?_
  rw [Store.define_size] at hlt
  obtain ⟨c, m, hc⟩ := h.superclass other d hlt hregion
  rw [Store.define_binding?]
  split
  next heq =>
    rcases hname with hname | ⟨c', rfl⟩
    · exact absurd heq.2.1 hname
    · exact ⟨c', mutable, rfl⟩
  next => exact ⟨c, m, hc⟩

/-- A frame is made that is not for a superclass. -/
theorem Sound.newFrame (h : r.Sound) (parent : Option FrameId)
    (hregion : ∀ d, r.history.origins.regions r.machine.store.frames.size ≠
      some (.superclass d)) :
    Kept r (r.withStore (r.machine.store.newFrame parent).2) := by
  refine h.withStore (Store.newFrame_grows ..) (Store.gains_newFrame ..) fun frame d hlt hr => ?_
  rw [Store.newFrame_size] at hlt
  rcases Nat.lt_or_eq_of_le (Nat.lt_succ_iff.mp hlt) with hlt | rfl
  · simpa using h.superclass frame d hlt hr
  · exact absurd hr (hregion d)

/-- A frame is made that holds a superclass. -/
theorem Sound.superFrame (h : r.Sound) (parent : Option FrameId) {c : Class}
    (hc : r.KnowsClass c) :
    Kept r (r.withStore ((r.machine.store.newFrame parent).2.define r.machine.store.frames.size
      "super" (.cls c) false)) := by
  let s := (r.machine.store.newFrame parent).2.define r.machine.store.frames.size "super" (.cls c)
    false
  have hgrows : r.machine.store.Grows s :=
    (Store.newFrame_grows r.machine.store parent).trans (Store.define_grows ..)
  have hgains : r.machine.store.Gains s (r.withStore s).KnowsValue :=
    (Store.gains_newFrame _ parent).trans
      (Store.gains_define _ _ _ _ _ (hc.grows (grows_withStore hgrows)))
  refine h.withStore hgrows hgains fun frame d hlt hr => ?_
  rw [Store.define_size, Store.newFrame_size] at hlt
  rw [Store.define_binding?]
  split
  next => exact ⟨c, false, rfl⟩
  next hne =>
    rcases Nat.lt_or_eq_of_le (Nat.lt_succ_iff.mp hlt) with hlt | rfl
    · simpa using h.superclass frame d hlt hr
    · exact absurd ⟨rfl, rfl, by simp⟩ hne

/-- Drawing serial numbers keeps a sound run. -/
theorem Sound.drawn (h : r.Sound) {n : Nat} (hn : r.machine.store.nextSerial ≤ n) :
    Kept r (r.withStore { r.machine.store with nextSerial := n }) :=
  h.withStore (.of_frames rfl hn) (Store.gains_drawn ..) h.superclass

/-- A new object keeps a sound run. -/
theorem Sound.newObject (h : r.Sound) (c : Class) :
    Kept r (r.withStore (r.machine.store.newObject c).2) :=
  h.withStore (.of_frames rfl (Nat.le_refl _)) (Store.gains_newObject ..) h.superclass

/-- A field of an object gets a known value. -/
theorem Sound.setField (h : r.Sound) {o : Object} {name : String} {value : Value}
    (hvalue : r.KnowsValue value) :
    Kept r (r.withStore (r.machine.store.setField o name value)) := by
  have hgrows : r.machine.store.Grows (r.machine.store.setField o name value) :=
    .of_frames rfl (Nat.le_refl _)
  exact h.withStore hgrows (Store.gains_setField _ _ _ _ (hvalue.grows (grows_withStore hgrows)))
    h.superclass

end Run

end Lox.Eval
