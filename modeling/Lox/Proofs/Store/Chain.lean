import Lox.Store

/-!
# Chains of frames, and stores that grow

`s.Chain frame fs`: the frames from `frame` up to one without a parent are `fs`. A store only grows:
frames stay, keep their parents and keep binding what they bind (`Store.Grows`), so a chain stays
what it is for as long as the program runs. The values in a store only come from what is put there
(`Store.Gains`), so a property of all of them is kept if the new ones have it.
-/

namespace Lox.Store

/-- The frame binds the name. -/
def Binds (s : Store) (frame : FrameId) (name : String) : Prop :=
  ∃ b, s.binding? frame name = some b

/-- The frames from a frame up to the outermost one are these. -/
inductive Chain (s : Store) : FrameId → List FrameId → Prop where
  | last {frame : FrameId} (h : frame < s.frames.size) (hp : s.parent? frame = none) :
      Chain s frame [frame]
  | link {frame parent : FrameId} {fs : List FrameId} (h : frame < s.frames.size)
      (hp : s.parent? frame = some parent) (hc : Chain s parent fs) : Chain s frame (frame :: fs)

/-- The second store comes after the first one. -/
structure Grows (s s' : Store) : Prop where
  size : s.frames.size ≤ s'.frames.size
  parent : ∀ frame < s.frames.size, s'.parent? frame = s.parent? frame
  binds : ∀ frame name, s.Binds frame name → s'.Binds frame name
  serial : s.nextSerial ≤ s'.nextSerial

variable {s s' s'' : Store}

/-- A store comes after itself. -/
theorem Grows.refl (s : Store) : Grows s s :=
  ⟨Nat.le_refl _, fun _ _ => rfl, fun _ _ h => h, Nat.le_refl _⟩

/-- What comes later still comes after. -/
theorem Grows.trans (h : Grows s s') (h' : Grows s' s'') : Grows s s'' where
  size := Nat.le_trans h.size h'.size
  parent frame hf := by rw [h'.parent frame (Nat.lt_of_lt_of_le hf h.size), h.parent frame hf]
  binds frame name hb := h'.binds frame name (h.binds frame name hb)
  serial := Nat.le_trans h.serial h'.serial

/-! ## Chains -/

/-- The frame `d` steps up a chain is the one at place `d` of it. -/
theorem Chain.ancestor? {frame : FrameId} {fs : List FrameId} (h : Chain s frame fs) (d : Nat) :
    s.ancestor? frame d = fs[d]? := by
  induction h generalizing d with
  | last h hp =>
    cases d with
    | zero => exact if_pos h
    | succ d =>
      rw [Store.ancestor?, hp]
      rfl
  | link h hp hc ih =>
    cases d with
    | zero => exact if_pos h
    | succ d =>
      rw [Store.ancestor?, hp]
      exact ih d

/-- Frames keep their chain: parents never change. -/
theorem Chain.grows {frame : FrameId} {fs : List FrameId} (h : Chain s frame fs)
    (hs : Grows s s') : Chain s' frame fs := by
  induction h with
  | last h hp => exact .last (Nat.lt_of_lt_of_le h hs.size) ((hs.parent _ h).trans hp)
  | link h hp _ ih => exact .link (Nat.lt_of_lt_of_le h hs.size) ((hs.parent _ h).trans hp) ih

/-- A chain begins with its frame. -/
theorem Chain.head_eq {frame first : FrameId} {fs : List FrameId}
    (h : Chain s frame (first :: fs)) : first = frame := by
  cases h <;> rfl

/-- A chain starts at a frame that is there. -/
theorem Chain.lt_size {frame : FrameId} {fs : List FrameId} (h : Chain s frame fs) :
    frame < s.frames.size := by
  cases h with
  | last h _ => exact h
  | link h _ _ => exact h

/-! ## Steps up a chain -/

/-- One step further up lies the parent. -/
theorem ancestor?_succ {frame a : FrameId} {d : Nat} (h : s.ancestor? frame d = some a) :
    s.ancestor? frame (d + 1) = (s.parent? a).bind fun parent => s.ancestor? parent 0 := by
  induction d generalizing frame with
  | zero =>
    unfold ancestor? at h
    split at h
    next =>
      cases h
      rfl
    next => cases h
  | succ d ih =>
    obtain ⟨parent, hparent, h⟩ := Option.bind_eq_some_iff.mp h
    rw [Store.ancestor?, hparent]
    exact ih h

/-- What is some steps up is a frame that is there. -/
theorem ancestor?_lt {frame a : FrameId} {d : Nat} (h : s.ancestor? frame d = some a) :
    a < s.frames.size := by
  induction d generalizing frame with
  | zero =>
    unfold ancestor? at h
    split at h
    next hlt =>
      cases h
      exact hlt
    next => cases h
  | succ d ih =>
    obtain ⟨parent, _, h⟩ := Option.bind_eq_some_iff.mp h
    exact ih h

/-- Frames one step apart are a frame and its parent. -/
theorem parent?_of_ancestor? {frame a b : FrameId} {d : Nat} (ha : s.ancestor? frame d = some a)
    (hb : s.ancestor? frame (d + 1) = some b) : s.parent? a = some b := by
  rw [ancestor?_succ ha] at hb
  obtain ⟨parent, hparent, hzero⟩ := Option.bind_eq_some_iff.mp hb
  unfold ancestor? at hzero
  split at hzero
  next =>
    cases hzero
    exact hparent
  next => cases hzero

/-! ## Binding a name -/

section Define

variable (s) (frame : FrameId) (name : String) (value : Value) (mutable : Bool)

/-- Binding a name makes no frame. -/
@[simp] theorem define_size : (s.define frame name value mutable).frames.size = s.frames.size :=
  Array.size_modify

/-- Binding a name draws no serial number. -/
@[simp] theorem define_nextSerial : (s.define frame name value mutable).nextSerial = s.nextSerial :=
  rfl

/-- Binding a name changes no field. -/
@[simp] theorem define_field? (o : Object) (field : String) :
    (s.define frame name value mutable).field? o field = s.field? o field :=
  rfl

/-- Binding a name changes nothing around a frame. -/
@[simp] theorem define_parent? (other : FrameId) :
    (s.define frame name value mutable).parent? other = s.parent? other := by
  unfold parent? define
  simp only [Array.getElem?_modify]
  split
  next h =>
    subst h
    cases s.frames[frame]? <;> rfl
  next => rfl

/-- What a frame binds after a name was bound. -/
theorem define_binding? (other : FrameId) (n : String) :
    (s.define frame name value mutable).binding? other n =
      if frame = other ∧ name = n ∧ frame < s.frames.size then some ⟨value, mutable⟩
      else s.binding? other n := by
  unfold binding? define
  simp only [Array.getElem?_modify]
  by_cases hframe : frame = other
  · subst hframe
    by_cases hlt : frame < s.frames.size
    · by_cases hname : name = n
      · subst hname
        simp [hlt]
      · simp [hlt, hname, Std.TreeMap.getElem?_insert]
    · simp [hlt]
  · simp [hframe]

/-- Binding a name, the store only grows. -/
theorem define_grows : Grows s (s.define frame name value mutable) := by
  refine ⟨Nat.le_of_eq (by simp), fun other _ => by simp, fun other n hb => ?_, Nat.le_refl _⟩
  obtain ⟨b, hb⟩ := hb
  unfold Binds
  rw [define_binding?]
  split
  next => exact ⟨_, rfl⟩
  next => exact ⟨b, hb⟩

/-- The name is bound then, if the frame is there. -/
theorem define_binds (h : frame < s.frames.size) :
    (s.define frame name value mutable).Binds frame name :=
  ⟨⟨value, mutable⟩, by rw [define_binding?, if_pos ⟨rfl, rfl, h⟩]⟩

end Define

/-! ## New frames -/

section NewFrame

variable (s) (parent : Option FrameId)

@[simp] theorem newFrame_fst : (s.newFrame parent).1 = s.frames.size :=
  rfl

/-- There is one frame more. -/
@[simp] theorem newFrame_size : (s.newFrame parent).2.frames.size = s.frames.size + 1 :=
  Array.size_push _

@[simp] theorem newFrame_nextSerial : (s.newFrame parent).2.nextSerial = s.nextSerial :=
  rfl

/-- The fields are as they were. -/
@[simp] theorem newFrame_field? (o : Object) (field : String) :
    (s.newFrame parent).2.field? o field = s.field? o field :=
  rfl

/-- The new frame has the parent that was asked for. -/
theorem newFrame_parent?_new : (s.newFrame parent).2.parent? s.frames.size = parent := by
  simp [newFrame, parent?]

/-- The frames before it keep theirs. -/
theorem newFrame_parent? {frame : FrameId} (h : frame < s.frames.size) :
    (s.newFrame parent).2.parent? frame = s.parent? frame := by
  unfold newFrame parent?
  simp only [Array.getElem?_push]
  rw [if_neg (Nat.ne_of_lt h)]

/-- The parent of any frame once there is a new one. -/
theorem newFrame_parent?_eq (frame : FrameId) :
    (s.newFrame parent).2.parent? frame =
      if frame = s.frames.size then parent else s.parent? frame := by
  unfold newFrame parent?
  simp only [Array.getElem?_push]
  split <;> rfl

/-- A new frame binds nothing, and the others bind what they did. -/
@[simp] theorem newFrame_binding? (frame : FrameId) (n : String) :
    (s.newFrame parent).2.binding? frame n = s.binding? frame n := by
  unfold newFrame binding?
  simp only [Array.getElem?_push]
  split
  next h =>
    subst h
    simp
  next => rfl

/-- With a new frame, the store only grows. -/
theorem newFrame_grows : Grows s (s.newFrame parent).2 :=
  ⟨by simp, fun _ h => s.newFrame_parent? parent h, fun frame n ⟨b, hb⟩ => ⟨b, by simpa using hb⟩,
    Nat.le_refl _⟩

end NewFrame

/-! ## Fields -/

section Fields

variable (s)

/-- A new object has no fields, and the others keep theirs. -/
@[simp] theorem newObject_field? (c : Class) (o : Object) (name : String) :
    (s.newObject c).2.field? o name = s.field? o name := by
  unfold newObject field?
  simp only [Array.getElem?_push]
  split
  next h =>
    rw [h]
    simp
  next => rfl

/-- What a field holds after one was set. -/
theorem setField_field? (o other : Object) (name n : String) (value : Value) :
    (s.setField o name value).field? other n =
      if o.id = other.id ∧ name = n ∧ o.id < s.objects.size then some value
      else s.field? other n := by
  unfold setField field?
  simp only [Array.getElem?_modify]
  by_cases hid : o.id = other.id
  · by_cases hlt : o.id < s.objects.size
    · by_cases hname : name = n
      · subst hname
        simp [← hid, hlt]
      · simp [← hid, hlt, hname, Std.TreeMap.getElem?_insert]
    · simp [← hid, hlt]
  · simp [hid]

end Fields

/-! ## Other changes -/

/-- A store that differs in its objects, and in more serial numbers drawn. -/
theorem Grows.of_frames (hframes : s'.frames = s.frames) (hserial : s.nextSerial ≤ s'.nextSerial) :
    Grows s s' := by
  refine ⟨Nat.le_of_eq (by rw [hframes]), fun frame _ => ?_, fun frame n hb => ?_, hserial⟩
  · unfold parent?
    rw [hframes]
  · unfold Binds binding? at hb ⊢
    rw [hframes]
    exact hb

/-! ## Values in stores -/

/-- All that the second store binds, and all that its fields hold, stands in the first one too or is
one of the new values. -/
structure Gains (s s' : Store) (new : Value → Prop) : Prop where
  bindings : ∀ frame name b, s'.binding? frame name = some b →
    s.binding? frame name = some b ∨ new b.value
  fields : ∀ o name v, s'.field? o name = some v → s.field? o name = some v ∨ new v

section Gains

variable {new : Value → Prop}

/-- What is gained in two steps is one of the new values or was there. -/
theorem Gains.trans {s'' : Store} (h : s.Gains s' new) (h' : s'.Gains s'' new) :
    s.Gains s'' new :=
  ⟨fun frame name b hb => (h'.bindings frame name b hb).elim (h.bindings frame name b) .inr,
    fun o name v hv => (h'.fields o name v hv).elim (h.fields o name v) .inr⟩

variable (s)

/-- A store gains nothing by itself. -/
theorem gains_nothing : s.Gains s new :=
  ⟨fun _ _ _ hb => .inl hb, fun _ _ _ hv => .inl hv⟩

/-- A binding gains its value. -/
theorem gains_define (frame : FrameId) (name : String) (value : Value) (mutable : Bool)
    (hvalue : new value) : s.Gains (s.define frame name value mutable) new := by
  refine ⟨fun other n b hb => ?_, fun _ _ _ hv => .inl hv⟩
  rw [define_binding?] at hb
  split at hb
  next =>
    cases hb
    exact .inr hvalue
  next => exact .inl hb

/-- A new frame gains nothing. -/
theorem gains_newFrame (parent : Option FrameId) : s.Gains (s.newFrame parent).2 new :=
  ⟨fun frame name b hb => .inl (by rwa [newFrame_binding?] at hb), fun _ _ _ hv => .inl hv⟩

theorem gains_drawn (n : Nat) : s.Gains { s with nextSerial := n } new :=
  ⟨fun _ _ _ hb => .inl hb, fun _ _ _ hv => .inl hv⟩

/-- A new object gains nothing. -/
theorem gains_newObject (c : Class) : s.Gains (s.newObject c).2 new :=
  ⟨fun _ _ _ hb => .inl hb, fun o name v hv => .inl (by rwa [newObject_field?] at hv)⟩

/-- A field gains its value. -/
theorem gains_setField (o : Object) (name : String) (value : Value) (hvalue : new value) :
    s.Gains (s.setField o name value) new := by
  refine ⟨fun _ _ _ hb => .inl hb, fun other n v hv => ?_⟩
  rw [setField_field?] at hv
  split at hv
  next =>
    cases hv
    exact .inr hvalue
  next => exact .inl hv

end Gains

variable {frame : FrameId} {name : String} {v : Value}

/-- What is read at a distance is bound somewhere. -/
theorem getAt?_binding {d : Nat} (hv : s.getAt? frame d name = some v) :
    ∃ f b, s.binding? f name = some b ∧ b.value = v := by
  obtain ⟨f, _, hv⟩ := Option.bind_eq_some_iff.mp hv
  exact ⟨f, Option.map_eq_some_iff.mp hv⟩

/-- What is found in a chain is bound somewhere. -/
theorem get?_binding (hv : s.get? frame name = some v) :
    ∃ f b, s.binding? f name = some b ∧ b.value = v := by
  obtain ⟨f, _, hv⟩ := Option.bind_eq_some_iff.mp hv
  exact ⟨f, Option.map_eq_some_iff.mp hv⟩

end Lox.Store
