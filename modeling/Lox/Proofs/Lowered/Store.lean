import Lox.Proofs.Lowered.Trees
import Lox.Proofs.Store.Chain
import Lox.Proofs.Twin.Likeness

/-!
# Stores of a program and of one with loops written out

Each frame of the second run stands for one of the first run: a frame made for a scope of both
programs for its counterpart, and one made for a round of a loop that is written out, which binds
nothing, for the frame around it (`FrameMap`). What is looked up at a distance in the first store is
found in the second one at the distance that the shape of the scopes around gives. Each way of
changing the stores keeps them so.
-/

namespace Lox

/-! ## Frames -/

/-- For each frame of the second run, the one of the first run that it stands for, and which of the
scopes that it and the frames around it were made for are in both programs. -/
abbrev FrameMap := List (FrameId × Shape)

namespace FrameMap

variable {w w' : FrameMap} {frame : FrameId} {entry : FrameId × Shape}

/-- A frame of the second run keeps standing for what it stands for. -/
theorem grow (hw : w <+: w') (h : w[frame]? = some entry) : w'[frame]? = some entry := by
  obtain ⟨more, rfl⟩ := hw
  rwa [List.getElem?_append_left (List.getElem?_eq_some_iff.mp h).1]

/-- Only frames that are there stand for others. -/
theorem lt_length (h : w[frame]? = some entry) : frame < w.length :=
  (List.getElem?_eq_some_iff.mp h).1

/-- The next frame stands for what is added last. -/
theorem push_new (w : FrameMap) (entry : FrameId × Shape) :
    (w ++ [entry])[w.length]? = some entry := by
  simp

/-- What is known after one more frame was made. -/
theorem push_cases {new : FrameId × Shape} (h : (w ++ [new])[frame]? = some entry) :
    w[frame]? = some entry ∨ frame = w.length ∧ entry = new := by
  have hlt := lt_length h
  rw [List.length_append, List.length_singleton] at hlt
  rcases Nat.lt_succ_iff_lt_or_eq.mp hlt with hlt | rfl
  · rw [List.getElem?_append_left hlt] at h
    exact .inl h
  · rw [push_new] at h
    exact .inr ⟨rfl, (Option.some.inj h).symm⟩

end FrameMap

/-! ## Values -/

/-- The functions are the same, with the loops of the second one written out. Scopes of the shape
`inner` are to lie between the body and the frame that the function was made in. -/
structure Function.Lowered (k : Links) (w : FrameMap) (inner : Shape) (f f' : Function) : Prop where
  serial : f'.serial = f.serial
  isInitializer : f'.isInitializer = f.isInitializer
  kind : f'.kind = f.kind
  lowers : ∃ shape, w[f'.closure]? = some (f.closure, shape) ∧
    (f.isInitializer = true → (inner ++ shape).Shared) ∧
    Lowers k (inner ++ shape) (.function f.declaration) (.function f'.declaration)

/-- The classes are the same, with the loops of the second one written out. A scope that holds
`this` lies around each member. -/
abbrev Class.Lowered (k : Links) (w : FrameMap) : Class → Class → Prop :=
  Class.Like (Function.Lowered k w [true])

/-- The values are the same, with the loops of the second one written out. -/
abbrev Value.Lowered (k : Links) (w : FrameMap) : Value → Value → Prop :=
  Value.Like (Function.Lowered k w []) (Function.Lowered k w [true])

/-- The bindings are the same, with the loops of the second one written out. -/
structure Binding.Lowered (k : Links) (w : FrameMap) (b b' : Binding) : Prop where
  value : b.value.Lowered k w b'.value
  mutable : b'.mutable = b.mutable

variable {k : Links} {w w' : FrameMap}

/-- A function with loops written out shows the same of itself. -/
theorem Function.Lowered.seen {inner : Shape} {f f' : Function} (h : f.Lowered k w inner f') :
    f.Seen f' := by
  obtain ⟨shape, -, -, hlowers⟩ := h.lowers
  have hparameters := congrArg List.length hlowers.declaration.2.2
  rw [List.length_map, List.length_map] at hparameters
  exact ⟨h.serial, hlowers.declaration.1, hparameters⟩

/-- Functions stay the same when there are more frames. -/
theorem Function.Lowered.grow {inner : Shape} {f f' : Function} (h : f.Lowered k w inner f')
    (hw : w <+: w') : f.Lowered k w' inner f' := by
  obtain ⟨shape, hshape, hlowers⟩ := h.lowers
  exact ⟨h.serial, h.isInitializer, h.kind, shape, FrameMap.grow hw hshape, hlowers⟩

/-- Classes stay the same when there are more frames. -/
theorem Class.Lowered.grow {c c' : Class} (h : c.Lowered k w c') (hw : w <+: w') :
    c.Lowered k w' c' :=
  Class.Like.imp (fun _ _ hf => hf.grow hw) h

/-- Values stay the same when there are more frames. -/
theorem Value.Lowered.grow {a a' : Value} (h : a.Lowered k w a') (hw : w <+: w') :
    a.Lowered k w' a' :=
  Value.Like.imp (fun _ _ hf => hf.grow hw) (fun _ _ hf => hf.grow hw) h

/-- Bindings stay the same when there are more frames. -/
theorem Binding.Lowered.grow {b b' : Binding} (h : b.Lowered k w b') (hw : w <+: w') :
    b.Lowered k w' b' :=
  ⟨h.value.grow hw, h.mutable⟩

/-! ## Stores -/

/-- The frames around a frame of the second store and around the one that it stands for. -/
inductive Store.Around (w : FrameMap) (s s' : Store) (first frame : FrameId) : Shape → Prop where
  | top (h : s.parent? first = none) (h' : s'.parent? frame = none) :
      Store.Around w s s' first frame []
  | shared {shape : Shape} {parent parent' : FrameId} (h : s.parent? first = some parent)
      (h' : s'.parent? frame = some parent') (hparent : w[parent']? = some (parent, shape)) :
      Store.Around w s s' first frame (true :: shape)
  | round {shape : Shape} {parent' : FrameId} (h' : s'.parent? frame = some parent')
      (hparent : w[parent']? = some (first, shape)) :
      Store.Around w s s' first frame (false :: shape)

/-- Frames around a frame are known by its parents, which do not change. -/
theorem Store.Around.imp {s s' t t' : Store} {first frame : FrameId} {shape : Shape}
    (h : Store.Around w s s' first frame shape) (hw : w <+: w')
    (ht : t.parent? first = s.parent? first) (ht' : t'.parent? frame = s'.parent? frame) :
    Store.Around w' t t' first frame shape := by
  cases h with
  | top htop htop' => exact .top (ht.trans htop) (ht'.trans htop')
  | shared hp hp' hparent => exact .shared (ht.trans hp) (ht'.trans hp') (FrameMap.grow hw hparent)
  | round hp' hparent => exact .round (ht'.trans hp') (FrameMap.grow hw hparent)

/-- The stores hold the same, with the loops of the second program written out. -/
structure Store.Lowered (k : Links) (w : FrameMap) (s s' : Store) : Prop where
  size : s'.frames.size = w.length
  first : ∀ (frame first : FrameId) (shape : Shape), w[frame]? = some (first, shape) →
    first < s.frames.size
  around : ∀ (frame first : FrameId) (shape : Shape), w[frame]? = some (first, shape) →
    Store.Around w s s' first frame shape
  /-- Frames for scopes of both programs stand for different ones. -/
  apart : ∀ (frame other first : FrameId) (shape shape' : Shape), w[frame]? = some (first, shape) →
    w[other]? = some (first, shape') → shape.Shared → shape'.Shared → frame = other
  bindings : ∀ (frame first : FrameId) (shape : Shape), w[frame]? = some (first, shape) →
    shape.Shared → ∀ name,
      Option.Rel (Binding.Lowered k w) (s.binding? first name) (s'.binding? frame name)
  objects : s'.objects.size = s.objects.size
  fields : ∀ o o' : Object, o'.id = o.id → ∀ name,
    Option.Rel (Value.Lowered k w) (s.field? o name) (s'.field? o' name)
  serial : s'.nextSerial = s.nextSerial

/-- The frames for an assignment: of the same variable, or none for the same reason. -/
inductive Store.TargetLowered (w : FrameMap) :
    Except AssignFault FrameId → Except AssignFault FrameId → Prop where
  | ok {first frame : FrameId} {shape : Shape} (h : w[frame]? = some (first, shape))
      (hshared : shape.Shared) : Store.TargetLowered w (.ok first) (.ok frame)
  | error (fault : AssignFault) : Store.TargetLowered w (.error fault) (.error fault)

namespace Store

/-! ## Frames without a parent -/

section Top

variable {s : Store} {frame : FrameId} (hlt : frame < s.frames.size)
  (hparent : s.parent? frame = none) (name : String)

include hlt hparent

/-- A frame without a parent is the only one to be searched. -/
theorem search_top :
    s.search frame name = if (s.binding? frame name).isSome then some frame else none := by
  unfold search
  obtain ⟨steps, hsteps⟩ := Nat.exists_eq_succ_of_ne_zero (Nat.ne_zero_of_lt hlt)
  rw [hsteps, searchWithin, hparent]
  rfl

/-- A search that begins at the outermost frame looks nowhere else. -/
theorem get?_top : s.get? frame name = s.getAt? frame 0 name := by
  unfold get? getAt? ancestor?
  rw [search_top hlt hparent, if_pos hlt]
  cases hbinding : s.binding? frame name with
  | none => simp [hbinding]
  | some b => simp

/-- A frame without a parent is the only target. -/
theorem target_top : s.target frame name = s.targetAt frame 0 name := by
  unfold target targetAt ancestor?
  rw [search_top hlt hparent, if_pos hlt]
  cases hbinding : s.binding? frame name with
  | none => simp [targetIn, hbinding]
  | some b => simp

end Top

namespace Lowered

variable {s s' : Store} (h : s.Lowered k w s') {frame first : FrameId} {shape : Shape}

include h

/-! ## What is found -/

section Found

variable (hframe : w[frame]? = some (first, shape))

include hframe

/-- A frame that stands for another is in the second store. -/
theorem lt_size : frame < s'.frames.size :=
  h.size ▸ FrameMap.lt_length hframe

/-- The frame at a distance stands for the one at the distance in the first store. -/
theorem ancestor? (distance : Nat) :
    Option.Rel (fun ancestor ancestor' => w[ancestor']? = some (ancestor, shape.beyond distance))
      (s.ancestor? first distance) (s'.ancestor? frame (shape.far distance)) := by
  have hlt := h.first _ _ _ hframe
  have hlt' := h.lt_size hframe
  -- on the scopes around the frame: one of both programs is a step in both stores, that of a round
  -- is a step in the second only
  induction shape generalizing frame first distance with
  | nil =>
    cases h.around frame first [] hframe with
    | top hparent hparent' =>
      cases distance with
      | zero =>
        unfold Store.ancestor?
        rw [if_pos hlt, Shape.far, if_pos hlt']
        exact .some hframe
      | succ distance =>
        unfold Store.ancestor?
        rw [hparent, Shape.far, hparent']
        exact .none
  | cons shared shape ih =>
    cases h.around frame first _ hframe with
    | @round _ parent' hparent' hparent =>
      rw [Shape.far, Store.ancestor?, hparent']
      exact ih hparent distance (h.first _ _ _ hparent) (h.lt_size hparent)
    | @shared _ parent parent' hfirst hparent' hparent =>
      cases distance with
      | zero =>
        rw [Shape.far, Store.ancestor?, if_pos hlt, Store.ancestor?, if_pos hlt']
        exact .some hframe
      | succ distance =>
        rw [Shape.far, Store.ancestor?, hfirst, Store.ancestor?, hparent']
        exact ih hparent distance (h.first _ _ _ hparent) (h.lt_size hparent)

/-- A value that is bound at a distance. -/
theorem getAt? (distance : Nat) (name : String) :
    Option.Rel (Value.Lowered k w) (s.getAt? first distance name)
      (s'.getAt? frame (shape.far distance) name) := by
  have hancestor := h.ancestor? hframe distance
  unfold Store.getAt?
  generalize s.ancestor? first distance = ancestor at hancestor ⊢
  generalize s'.ancestor? frame (shape.far distance) = ancestor' at hancestor ⊢
  cases hancestor with
  | none => exact .none
  | some hancestor =>
    exact (h.bindings _ _ _ hancestor (shape.beyond_shared distance) name).map
      fun _ _ hb => hb.value

/-- The frame that an assignment at a distance is for. -/
theorem targetAt (distance : Nat) (name : String) :
    TargetLowered w (s.targetAt first distance name)
      (s'.targetAt frame (shape.far distance) name) := by
  have hancestor := h.ancestor? hframe distance
  unfold Store.targetAt
  generalize s.ancestor? first distance = ancestor at hancestor ⊢
  generalize s'.ancestor? frame (shape.far distance) = ancestor' at hancestor ⊢
  cases hancestor with
  | none => exact .error .undefined
  | @some ancestor ancestor' hancestor =>
    have hshared := shape.beyond_shared distance
    have hbinding := h.bindings _ _ _ hancestor hshared name
    unfold targetIn
    dsimp only
    generalize s.binding? ancestor name = b at hbinding ⊢
    generalize s'.binding? ancestor' name = b' at hbinding ⊢
    cases hbinding with
    | none => exact .error .undefined
    | @some b b' hb =>
      dsimp only
      rw [hb.mutable]
      split
      next => exact .ok hancestor hshared
      next => exact .error .constant

end Found

section Global

variable (hglobal : w[frame]? = some (first, []))

include hglobal

/-- Frames with no scope around them have no parent. -/
theorem tops : s.parent? first = none ∧ s'.parent? frame = none := by
  cases h.around frame first [] hglobal with
  | top hparent hparent' => exact ⟨hparent, hparent'⟩

/-- The value of a global variable. -/
theorem get?_global (name : String) :
    Option.Rel (Value.Lowered k w) (s.get? first name) (s'.get? frame name) := by
  rw [get?_top (h.first _ _ _ hglobal) (h.tops hglobal).1,
    get?_top (h.lt_size hglobal) (h.tops hglobal).2]
  exact h.getAt? hglobal 0 name

/-- The frame that an assignment to a global variable is for. -/
theorem target_global (name : String) :
    TargetLowered w (s.target first name) (s'.target frame name) := by
  rw [target_top (h.first _ _ _ hglobal) (h.tops hglobal).1,
    target_top (h.lt_size hglobal) (h.tops hglobal).2]
  exact h.targetAt hglobal 0 name

end Global

/-! ## What is changed -/

/-- One more frame is made in the second run. If it is for a scope of both programs, then the frame
that it stands for is a new one as well. -/
theorem pushed {t : Store} {parent : Option FrameId} {new : FrameId} {shape : Shape}
    (hsize : s.frames.size ≤ t.frames.size)
    (hparent : ∀ other < s.frames.size, t.parent? other = s.parent? other)
    (hbinding : ∀ other name, t.binding? other name = s.binding? other name)
    (hobjects : t.objects = s.objects) (hserial : t.nextSerial = s.nextSerial)
    (hnew : new < t.frames.size)
    (haround : Around (w ++ [(new, shape)]) t (s'.newFrame parent).2 new w.length shape)
    (hfresh : shape.Shared → new = s.frames.size) :
    t.Lowered k (w ++ [(new, shape)]) (s'.newFrame parent).2 := by
  -- a frame of the map is an old one or the new last one; every field of the relation is proved by
  -- these two cases
  have hgrow : w <+: w ++ [(new, shape)] := List.prefix_append _ _
  have hunbound (name : String) : s.binding? s.frames.size name = none ∧
      s'.binding? w.length name = none := by
    unfold Store.binding?
    rw [← h.size, Array.getElem?_eq_none (Nat.le_refl _), Array.getElem?_eq_none (Nat.le_refl _)]
    exact ⟨rfl, rfl⟩
  refine ⟨?_, fun other first' shape' hother => ?_, fun other first' shape' hother => ?_,
    fun other other' first' shape' shape'' hother hother' hshared hshared' => ?_,
    fun other first' shape' hother hshared name => ?_, ?_, fun o o' ho name => ?_, ?_⟩
  · rw [newFrame_size, h.size, List.length_append]
    rfl
  · rcases FrameMap.push_cases hother with hold | ⟨rfl, heq⟩
    · exact Nat.lt_of_lt_of_le (h.first _ _ _ hold) hsize
    · cases heq
      exact hnew
  · rcases FrameMap.push_cases hother with hold | ⟨rfl, heq⟩
    · exact (h.around _ _ _ hold).imp hgrow (hparent _ (h.first _ _ _ hold))
        (newFrame_parent? s' parent (h.lt_size hold))
    · cases heq
      exact haround
  -- two frames for one shared scope would be the same frame, and the new one is fresh
  · rcases FrameMap.push_cases hother with hold | ⟨rfl, heq⟩ <;>
      rcases FrameMap.push_cases hother' with hold' | ⟨rfl, heq'⟩
    · exact h.apart _ _ _ _ _ hold hold' hshared hshared'
    · cases heq'
      exact absurd (hfresh hshared') (Nat.ne_of_lt (h.first _ _ _ hold))
    · cases heq
      exact absurd (hfresh hshared) (Nat.ne_of_lt (h.first _ _ _ hold'))
    · rfl
  · rw [hbinding, newFrame_binding?]
    rcases FrameMap.push_cases hother with hold | ⟨rfl, heq⟩
    · exact (h.bindings _ _ _ hold hshared name).imp fun _ _ hb => hb.grow hgrow
    · cases heq
      rw [hfresh hshared, (hunbound name).1, (hunbound name).2]
      exact .none
  · rw [hobjects]
    exact h.objects
  · have hfield : t.field? o name = s.field? o name := by
      unfold Store.field?
      rw [hobjects]
    rw [hfield, newFrame_field?]
    exact (h.fields o o' ho name).imp fun _ _ hv => hv.grow hgrow
  · rw [hserial]
    exact h.serial

/-- A frame is made inside another in both runs. -/
theorem newFrame (hframe : w[frame]? = some (first, shape)) :
    (s.newFrame (some first)).2.Lowered k (w ++ [(s.frames.size, true :: shape)])
      (s'.newFrame (some frame)).2 := by
  refine h.pushed ?_ (fun _ hother => newFrame_parent? _ _ hother)
    (fun _ _ => newFrame_binding? ..) rfl rfl ?_ ?_ fun _ => rfl
  · rw [newFrame_size]
    exact Nat.le_succ _
  · rw [newFrame_size]
    exact Nat.lt_succ_self _
  · rw [← h.size]
    exact .shared (newFrame_parent?_new ..) (newFrame_parent?_new ..)
      (FrameMap.grow (List.prefix_append _ _) hframe)

/-- A frame is made for a round in the second run. -/
theorem newRound (hframe : w[frame]? = some (first, shape)) :
    s.Lowered k (w ++ [(first, false :: shape)]) (s'.newFrame (some frame)).2 := by
  refine h.pushed (Nat.le_refl _) (fun _ _ => rfl) (fun _ _ => rfl) rfl rfl
    (h.first _ _ _ hframe) ?_ fun hshared => absurd rfl hshared
  rw [← h.size]
  exact .round (newFrame_parent?_new ..) (FrameMap.grow (List.prefix_append _ _) hframe)

/-- A name is bound in a frame of both runs. -/
theorem define (hframe : w[frame]? = some (first, shape)) (hshared : shape.Shared) (name : String)
    {value value' : Value} (hvalue : value.Lowered k w value') (mutable : Bool) :
    (s.define first name value mutable).Lowered k w (s'.define frame name value' mutable) := by
  refine ⟨(define_size ..).trans h.size, fun other first' shape' hother => ?_,
    fun other first' shape' hother => ?_, h.apart,
    fun other first' shape' hother hshared' n => ?_, h.objects, h.fields, h.serial⟩
  · rw [define_size]
    exact h.first _ _ _ hother
  · exact (h.around _ _ _ hother).imp (List.prefix_refl _) (define_parent? ..) (define_parent? ..)
  · rw [define_binding?, define_binding?]
    -- the frames for shared scopes stand for different frames
    have hsame : first = first' ↔ frame = other := by
      constructor
      · rintro rfl
        exact h.apart _ _ _ _ _ hframe hother hshared hshared'
      · rintro rfl
        cases hframe.symm.trans hother
        rfl
    by_cases hand : frame = other ∧ name = n
    · rw [if_pos ⟨hsame.mpr hand.1, hand.2, h.first _ _ _ hframe⟩,
        if_pos ⟨hand.1, hand.2, h.lt_size hframe⟩]
      exact .some ⟨hvalue, rfl⟩
    · rw [if_neg fun hall => hand ⟨hsame.mp hall.1, hall.2.1⟩,
        if_neg fun hall => hand ⟨hall.1, hall.2.1⟩]
      exact h.bindings _ _ _ hother hshared' n

/-- Serial numbers are drawn side by side. -/
theorem newSerial : s.newSerial.2.Lowered k w s'.newSerial.2 := by
  refine ⟨h.size, h.first, fun frame first shape hframe => ?_, h.apart, h.bindings, h.objects,
    h.fields, congrArg (· + 1) h.serial⟩
  exact (h.around _ _ _ hframe).imp (List.prefix_refl _) rfl rfl

/-- Objects are made side by side, without fields. -/
theorem newObject (c c' : Class) : (s.newObject c).2.Lowered k w (s'.newObject c').2 := by
  refine ⟨h.size, h.first, fun frame first shape hframe => ?_, h.apart, h.bindings, ?_,
    fun o o' ho name => ?_, h.serial⟩
  · exact (h.around _ _ _ hframe).imp (List.prefix_refl _) rfl rfl
  · unfold Store.newObject
    rw [Array.size_push, Array.size_push, h.objects]
  · rw [newObject_field?, newObject_field?]
    exact h.fields o o' ho name

/-- Fields are set side by side. -/
theorem setField {o o' : Object} (ho : o'.id = o.id) (name : String) {value value' : Value}
    (hvalue : value.Lowered k w value') :
    (s.setField o name value).Lowered k w (s'.setField o' name value') := by
  refine ⟨h.size, h.first, fun frame first shape hframe => ?_, h.apart, h.bindings, ?_,
    fun other other' hother n => ?_, h.serial⟩
  · exact (h.around _ _ _ hframe).imp (List.prefix_refl _) rfl rfl
  · unfold Store.setField
    rw [Array.size_modify, Array.size_modify, h.objects]
  · rw [setField_field?, setField_field?, ho, hother, h.objects]
    split
    next => exact .some hvalue
    next => exact h.fields other other' hother n

end Lowered

end Store

end Lox
