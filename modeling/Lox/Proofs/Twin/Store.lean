import Lox.Proofs.Store.Chain
import Lox.Proofs.Twin.Values

/-!
# Stores of two runs

Both runs make the same frames and objects in the same order. Their frames bind twins, in a frame
for a marked scope under the names that the other writing has there. Each way of changing a store
keeps two stores twins, and what is looked up at a distance in the one is found in the other under
the name that its distance says.
-/

namespace Lox

open Store

variable {v : Variation} {l l' : Layout}

/-- The bindings are the same but for the declarations of functions. -/
structure Binding.Twin (v : Variation) (l : Layout) (b b' : Binding) : Prop where
  value : b.value.Twin v l b'.value
  mutable : b'.mutable = b.mutable

theorem Binding.Twin.grow {b b' : Binding} (h : b.Twin v l b') (hl : l <+: l') : b.Twin v l' b' :=
  ⟨h.value.grow hl, h.mutable⟩

/-- The stores hold twins in the same places, and frames are made for scopes as the layout says. -/
structure Store.Twin (v : Variation) (l : Layout) (s s' : Store) : Prop where
  size : s.frames.size = l.length
  size' : s'.frames.size = l.length
  parent : ∀ frame, s'.parent? frame = s.parent? frame
  around : ∀ frame parent marks, s.parent? frame = some parent → l[frame]? = some marks →
    l[parent]? = some marks.tail
  bindings : ∀ frame marks, l[frame]? = some marks → ∀ name, v.Fresh name →
    Option.Rel (Binding.Twin v l) (s.binding? frame name)
      (s'.binding? frame (v.name (marks.headD false) name))
  objects : s'.objects.size = s.objects.size
  fields : ∀ o o' : Object, o'.id = o.id → ∀ name,
    Option.Rel (Value.Twin v l) (s.field? o name) (s'.field? o' name)
  serial : s'.nextSerial = s.nextSerial

/-- Without a change of names the stores are twins by any wider variation. -/
theorem Store.Twin.vary {v' : Variation} (hv : v.Within v') {s s' : Store} (h : s.Twin v l s') :
    s.Twin v' l s' := by
  refine ⟨h.size, h.size', h.parent, h.around, fun frame marks hmarks name _ => ?_, h.objects,
    fun o o' ho name => ?_, h.serial⟩
  · have hbinding := h.bindings frame marks hmarks name
      (Variation.stays_of_change hv.change (marks.headD false) name).fresh
    rw [(Variation.stays_of_change hv.change _ name).same] at hbinding
    rw [(Variation.stays_of_change hv.change' _ name).same]
    exact hbinding.imp fun _ _ hb => ⟨hb.value.vary hv, hb.mutable⟩
  · exact (h.fields o o' ho name).imp fun _ _ ha => ha.vary hv

theorem Store.targetIn_ok {s : Store} {name : String} {frame target : FrameId}
    (h : s.targetIn name frame = .ok target) : frame = target := by
  unfold targetIn at h
  split at h
  next =>
    split at h
    next =>
      cases h
      rfl
    next => cases h
  next => cases h

namespace Store.Twin

variable {s s' : Store}

theorem targetIn_eq {frame : FrameId} {name name' : String}
    (h : Option.Rel (Binding.Twin v l) (s.binding? frame name) (s'.binding? frame name')) :
    s'.targetIn name' frame = s.targetIn name frame := by
  unfold Store.targetIn
  generalize s.binding? frame name = b at h
  generalize s'.binding? frame name' = b' at h
  cases h with
  | none => rfl
  | some h => simp only [h.mutable]

/-! ## What is found -/

section Found

variable (h : s.Twin v l s') {frame : FrameId} {marks : List Bool}

include h

theorem ancestor? (frame : FrameId) (distance : Nat) :
    s'.ancestor? frame distance = s.ancestor? frame distance := by
  induction distance generalizing frame with
  | zero =>
    unfold Store.ancestor?
    rw [h.size, h.size']
  | succ distance ih =>
    unfold Store.ancestor?
    rw [h.parent]
    cases s.parent? frame with
    | none => rfl
    | some parent => exact ih parent

/-- The frames around a frame were made for the scopes around its own. -/
theorem marks_ancestor? (hmarks : l[frame]? = some marks) {distance : Nat} {ancestor : FrameId}
    (hancestor : s.ancestor? frame distance = some ancestor) :
    l[ancestor]? = some (marks.drop distance) := by
  induction distance generalizing frame marks with
  | zero =>
    unfold Store.ancestor? at hancestor
    split at hancestor
    next =>
      cases hancestor
      exact hmarks
    next => cases hancestor
  | succ distance ih =>
    unfold Store.ancestor? at hancestor
    obtain ⟨parent, hparent, hancestor⟩ := Option.bind_eq_some_iff.mp hancestor
    have hmarks := ih (h.around frame parent marks hparent hmarks) hancestor
    rwa [List.drop_tail] at hmarks

/-- What a frame binds at a distance. -/
theorem bindings_at (hmarks : l[frame]? = some marks) {distance : Nat} {ancestor : FrameId}
    (hancestor : s.ancestor? frame distance = some ancestor) {name : String}
    (hfresh : v.Fresh name) :
    Option.Rel (Binding.Twin v l) (s.binding? ancestor name)
      (s'.binding? ancestor (v.name (marks[distance]?.getD false) name)) := by
  have hbindings := h.bindings ancestor _ (h.marks_ancestor? hmarks hancestor) name hfresh
  rwa [List.headD_eq_head?_getD, List.head?_drop] at hbindings

theorem getAt? (hmarks : l[frame]? = some marks) (distance : Nat) {name : String}
    (hfresh : v.Fresh name) :
    Option.Rel (Value.Twin v l) (s.getAt? frame distance name)
      (s'.getAt? frame distance (v.name (marks[distance]?.getD false) name)) := by
  unfold Store.getAt?
  rw [h.ancestor?]
  cases hancestor : s.ancestor? frame distance with
  | none => exact .none
  | some ancestor => exact (h.bindings_at hmarks hancestor hfresh).map fun _ _ hb => hb.value

/-- What holds `this` holds it in both stores. -/
theorem receiver (hmarks : l[frame]? = some marks) (distance : Nat) :
    Value.Twin v l ((s.getAt? frame distance "this").getD .nil)
      ((s'.getAt? frame distance "this").getD .nil) := by
  have hthis := v.stays_this (marks[distance]?.getD false)
  have hfound := h.getAt? hmarks distance hthis.fresh
  rw [hthis.same] at hfound
  exact hfound.getD .nil

/-- The frame that an assignment at a distance is for. -/
theorem targetAt (hmarks : l[frame]? = some marks) (distance : Nat) {name : String}
    (hfresh : v.Fresh name) :
    s'.targetAt frame distance (v.name (marks[distance]?.getD false) name) =
      s.targetAt frame distance name := by
  unfold Store.targetAt
  rw [h.ancestor?]
  cases hancestor : s.ancestor? frame distance with
  | none => rfl
  | some ancestor =>
    show s'.targetIn _ ancestor = s.targetIn name ancestor
    exact targetIn_eq (h.bindings_at hmarks hancestor hfresh)

theorem lt_size (hmarks : l[frame]? = some marks) :
    frame < s.frames.size ∧ frame < s'.frames.size := by
  have hlt := (List.getElem?_eq_some_iff.mp hmarks).1
  exact ⟨h.size ▸ hlt, h.size' ▸ hlt⟩

/-- What the globals bind, whose variables keep their names. -/
theorem bindings_global (hglobal : l[frame]? = some []) {name : String} (hfresh : v.Fresh name) :
    Option.Rel (Binding.Twin v l) (s.binding? frame name) (s'.binding? frame name) := by
  have hbinding := h.bindings frame [] hglobal name hfresh
  rwa [show v.name (([] : List Bool).headD false) name = name from v.name_false name] at hbinding

/-- A search from the globals ends at the same frame, for which no scope was made. -/
theorem search_global {name : String} (hfresh : v.Fresh name) (hglobal : l[frame]? = some []) :
    s'.search frame name = s.search frame name ∧
      ∀ found, s.search frame name = some found → l[found]? = some [] := by
  unfold Store.search
  rw [h.size, h.size']
  generalize l.length = fuel
  induction fuel generalizing frame with
  | zero => exact ⟨rfl, fun found hfound => by cases hfound⟩
  | succ fuel ih =>
    unfold Store.searchWithin
    rw [(h.bindings_global hglobal hfresh).isSome_eq, h.parent]
    split
    next =>
      refine ⟨rfl, fun found hfound => ?_⟩
      cases hfound
      exact hglobal
    next =>
      cases hparent : s.parent? frame with
      | none => exact ⟨rfl, fun found hfound => by cases hfound⟩
      | some parent => exact ih (h.around frame parent [] hparent hglobal)

/-- The value of a global variable. -/
theorem get?_global (hglobal : l[frame]? = some [])
    {name : String} (hfresh : v.Fresh name) :
    Option.Rel (Value.Twin v l) (s.get? frame name) (s'.get? frame name) := by
  obtain ⟨hsearch, hfound⟩ := h.search_global hfresh hglobal
  unfold Store.get?
  rw [hsearch]
  cases hsome : s.search frame name with
  | none => exact .none
  | some found =>
    exact (h.bindings_global (hfound found hsome) hfresh).map fun _ _ hb => hb.value

/-- The frame that an assignment to a global variable is for. -/
theorem target_global (hglobal : l[frame]? = some []) {name : String} (hfresh : v.Fresh name) :
    s'.target frame name = s.target frame name := by
  obtain ⟨hsearch, hfound⟩ := h.search_global hfresh hglobal
  unfold Store.target
  rw [hsearch]
  cases hsome : s.search frame name with
  | none => rfl
  | some found => exact targetIn_eq (h.bindings_global (hfound found hsome) hfresh)

end Found

/-! ## What is changed -/

section Changed

variable (h : s.Twin v l s')

include h

/-- Nothing is bound in a frame that there is not. -/
theorem bindings_none {frame : FrameId} (hnone : l[frame]? = none) (name : String) :
    s.binding? frame name = none ∧ s'.binding? frame name = none := by
  have hle := List.getElem?_eq_none_iff.mp hnone
  unfold Store.binding?
  rw [Array.getElem?_eq_none (h.size ▸ hle), Array.getElem?_eq_none (h.size' ▸ hle)]
  exact ⟨rfl, rfl⟩

/-- A frame is made inside another. -/
theorem newFrame {parent : FrameId} {marks : List Bool} (hparent : l[parent]? = some marks)
    (mark : Bool) :
    (s.newFrame (some parent)).2.Twin v (l ++ [mark :: marks]) (s'.newFrame (some parent)).2 := by
  have hgrow : l <+: l ++ [mark :: marks] := List.prefix_append _ _
  have hnew : (l ++ [mark :: marks])[l.length]? = some (mark :: marks) := by simp
  refine ⟨?_, ?_, fun frame => ?_, fun frame other around hother haround => ?_,
    fun frame around haround name hname => ?_, h.objects, fun o o' ho name => ?_, h.serial⟩
  · rw [newFrame_size, h.size, List.length_append]
    rfl
  · rw [newFrame_size, h.size', List.length_append]
    rfl
  · rw [newFrame_parent?_eq, newFrame_parent?_eq, h.size, h.size', h.parent]
  · rw [newFrame_parent?_eq, h.size] at hother
    split at hother
    next heq =>
      cases hother
      obtain rfl : mark :: marks = around := Option.some.inj (hnew.symm.trans (heq ▸ haround))
      exact Layout.grow hgrow hparent
    next hne =>
      have hlt : frame < l.length := by
        have hlt := (List.getElem?_eq_some_iff.mp haround).1
        rw [List.length_append, List.length_singleton] at hlt
        exact Nat.lt_of_le_of_ne (Nat.le_of_lt_succ hlt) fun heq => hne heq
      rw [List.getElem?_append_left hlt] at haround
      exact Layout.grow hgrow (h.around frame other around hother haround)
  · rw [newFrame_binding?, newFrame_binding?]
    cases hframe : l[frame]? with
    | none =>
      rw [(h.bindings_none hframe name).1, (h.bindings_none hframe _).2]
      exact .none
    | some marks =>
      obtain rfl : marks = around :=
        Option.some.inj ((Layout.grow hgrow hframe).symm.trans haround)
      exact (h.bindings frame marks hframe name hname).imp fun _ _ hb => hb.grow hgrow
  · rw [newFrame_field?, newFrame_field?]
    exact (h.fields o o' ho name).imp fun _ _ hv => hv.grow hgrow

/-- A name is bound, under its other name in the second store. -/
theorem define {frame : FrameId} {marks : List Bool} (hmarks : l[frame]? = some marks)
    {name name' : String} (hfresh : v.Fresh name)
    (hname : name' = v.name (marks.headD false) name) {value value' : Value}
    (hvalue : value.Twin v l value') (mutable : Bool) :
    (s.define frame name value mutable).Twin v l (s'.define frame name' value' mutable) := by
  obtain ⟨hlt, hlt'⟩ := h.lt_size hmarks
  refine ⟨(define_size ..).trans h.size, (define_size ..).trans h.size', fun other => ?_,
    fun other parent around hparent => ?_, fun other around haround n hn => ?_, h.objects,
    h.fields, h.serial⟩
  · rw [define_parent?, define_parent?, h.parent]
  · rw [define_parent?] at hparent
    exact h.around other parent around hparent
  · rw [define_binding?, define_binding?]
    by_cases hframe : frame = other
    · subst hframe
      obtain rfl : marks = around := Option.some.inj (hmarks.symm.trans haround)
      by_cases hsame : name = n
      · subst hsame
        rw [if_pos ⟨rfl, rfl, hlt⟩, if_pos ⟨rfl, hname, hlt'⟩]
        exact .some ⟨hvalue, rfl⟩
      · have hsame' : name' ≠ v.name (marks.headD false) n := by
          rw [hname]
          exact fun heq => hsame (v.name_injective hfresh hn heq)
        rw [if_neg fun hand => hsame hand.2.1, if_neg fun hand => hsame' hand.2.1]
        exact h.bindings frame marks hmarks n hn
    · rw [if_neg fun hand => hframe hand.1, if_neg fun hand => hframe hand.1]
      exact h.bindings other around haround n hn

theorem newSerial : s.newSerial.2.Twin v l s'.newSerial.2 :=
  ⟨h.size, h.size', h.parent, h.around, h.bindings, h.objects, h.fields,
    congrArg (· + 1) h.serial⟩

theorem newObject (c c' : Class) : (s.newObject c).2.Twin v l (s'.newObject c').2 := by
  refine ⟨h.size, h.size', h.parent, h.around, h.bindings, ?_, fun o o' ho name => ?_, h.serial⟩
  · unfold Store.newObject
    rw [Array.size_push, Array.size_push, h.objects]
  · rw [newObject_field?, newObject_field?]
    exact h.fields o o' ho name

theorem setField {o o' : Object} (ho : o'.id = o.id) (name : String) {value value' : Value}
    (hvalue : value.Twin v l value') :
    (s.setField o name value).Twin v l (s'.setField o' name value') := by
  refine ⟨h.size, h.size', h.parent, h.around, h.bindings, ?_, fun other other' hother n => ?_,
    h.serial⟩
  · unfold Store.setField
    rw [Array.size_modify, Array.size_modify, h.objects]
  · rw [setField_field?, setField_field?, ho, hother, h.objects]
    split
    next => exact .some hvalue
    next => exact h.fields other other' hother n

end Changed

end Store.Twin

end Lox
