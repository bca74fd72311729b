import Lox.Proofs.Run.Operators
import Lox.Proofs.Run.Rules
import Lox.Proofs.Store.Lineage
import Lox.Proofs.Tree.Names

/-!
# Machines in proper order

A store is proper if every frame but that of the globals lies inside an earlier one and if the
functions in it close over frames that are there, the classes in it are younger than their
superclasses, and errors that running the functions may meet name only tokens of which `P` holds.
Nothing here depends on whether names were resolved. Values stay proper as the store grows.
-/

namespace Lox

/-! ## Values -/

/-- The frame that the function closes over is there, and errors about its body name only tokens of
which `P` holds. -/
structure Function.Proper (P : Token → Prop) (s : Store) (f : Function) : Prop where
  closure : f.closure < s.frames.size
  names : f.declaration.Names P

/-- Every class of the lineage is made, the superclass before the class, and has proper members. -/
structure Class.Proper (P : Token → Prop) (s : Store) (c : Class) : Prop where
  older : c.lineage.Pairwise fun d e => e.serial < d.serial
  drawn : ∀ d ∈ c.lineage, d.serial < s.nextSerial
  method : ∀ d ∈ c.lineage, ∀ (name : String) (f : Function),
    d.methods[name]? = some f → f.Proper P s
  classMethod : ∀ d ∈ c.lineage, ∀ (name : String) (f : Function),
    d.classMethods[name]? = some f → f.Proper P s

/-- The functions and classes in the value are proper. -/
def Value.Proper (P : Token → Prop) (s : Store) : Value → Prop
  | .function f => f.Proper P s
  | .cls c => c.Proper P s
  | .object o => o.cls.Proper P s
  | .nil | .bool _ | .number _ | .string _ | .native _ _ => True

/-- The value that is returned is proper. -/
def Flow.Proper (P : Token → Prop) (s : Store) : Flow → Prop
  | .returned value => value.Proper P s
  | .normal | .breakLoop | .continueLoop => True

section Values

variable {P : Token → Prop} {s s' : Store}

/-- The frame that a function closes over stays there. -/
theorem Function.Proper.grows {f : Function} (h : f.Proper P s) (hs : s.Grows s') :
    f.Proper P s' :=
  ⟨Nat.lt_of_lt_of_le h.closure hs.size, h.names⟩

/-- The classes of a lineage stay older than those below. -/
theorem Class.Proper.grows {c : Class} (h : c.Proper P s) (hs : s.Grows s') : c.Proper P s' where
  older := h.older
  drawn d hd := Nat.lt_of_lt_of_le (h.drawn d hd) hs.serial
  method d hd name f hf := (h.method d hd name f hf).grows hs
  classMethod d hd name f hf := (h.classMethod d hd name f hf).grows hs

/-- Values stay proper as the store grows. -/
theorem Value.Proper.grows {v : Value} (h : v.Proper P s) (hs : s.Grows s') : v.Proper P s' := by
  cases v with
  | function f => exact Function.Proper.grows h hs
  | cls c => exact Class.Proper.grows h hs
  | object o => exact Class.Proper.grows h hs
  | _ => trivial

/-- A value without functions, classes and objects is proper. -/
theorem Value.Proper.of_bare {v : Value} (h : v.Bare) : v.Proper P s := by
  cases v with
  | function f => exact h.elim
  | cls c => exact h.elim
  | object o => exact h.elim
  | _ => trivial

/-- What is found in a proper class is proper, also if it is inherited. -/
theorem Class.Proper.findMethod {c : Class} (h : c.Proper P s) {name : String} {f : Function}
    (hf : c.findMethod name = some f) : f.Proper P s := by
  rw [Class.findMethod_eq] at hf
  obtain ⟨d, hd, hf⟩ := List.exists_of_findSome?_eq_some hf
  exact h.method d hd name f hf

theorem Class.Proper.findClassMethod {c : Class} (h : c.Proper P s) {name : String} {f : Function}
    (hf : c.findClassMethod name = some f) : f.Proper P s := by
  rw [Class.findClassMethod_eq] at hf
  obtain ⟨d, hd, hf⟩ := List.exists_of_findSome?_eq_some hf
  exact h.classMethod d hd name f hf

/-- A class is proper if its own members are and its superclass is, and if it is younger. -/
theorem Class.Proper.of_superclass {c : Class} (hdrawn : c.serial < s.nextSerial)
    (hmethods : ∀ (name : String) (f : Function), c.methods[name]? = some f → f.Proper P s)
    (hclassMethods : ∀ (name : String) (f : Function),
      c.classMethods[name]? = some f → f.Proper P s)
    (hsuper : ∀ d ∈ c.superclass, d.Proper P s ∧ ∀ e ∈ d.lineage, e.serial < c.serial) :
    c.Proper P s := by
  -- the lineage is the class and then that of its superclass
  have hmem : ∀ d ∈ c.lineage, d = c ∨ ∃ parent ∈ c.superclass, d ∈ parent.lineage := by
    intro d hd
    rw [lineage_eq] at hd
    cases hparent : c.superclass with
    | none => simpa [hparent] using hd
    | some parent => simpa [hparent] using hd
  constructor
  · rw [lineage_eq]
    cases hparent : c.superclass with
    | none => exact List.pairwise_singleton _ _
    | some parent => exact List.pairwise_cons.mpr ⟨(hsuper parent hparent).2,
        (hsuper parent hparent).1.older⟩
  · intro d hd
    rcases hmem d hd with rfl | ⟨parent, hparent, hd⟩
    · exact hdrawn
    · exact (hsuper parent hparent).1.drawn d hd
  · intro d hd
    rcases hmem d hd with rfl | ⟨parent, hparent, hd⟩
    · exact hmethods
    · exact (hsuper parent hparent).1.method d hd
  · intro d hd
    rcases hmem d hd with rfl | ⟨parent, hparent, hd⟩
    · exact hclassMethods
    · exact (hsuper parent hparent).1.classMethod d hd

end Values

/-! ## Stores -/

/-- Every frame but the outermost one, `outer`, lies inside an earlier one, and all values are
proper. -/
structure Store.Proper (P : Token → Prop) (outer : FrameId) (s : Store) : Prop where
  there : outer < s.frames.size
  outermost : s.parent? outer = none
  parent : ∀ frame < s.frames.size, frame ≠ outer →
    ∃ parent, s.parent? frame = some parent ∧ parent < frame
  bindings : ∀ frame name b, s.binding? frame name = some b → b.value.Proper P s
  fields : ∀ o name v, s.field? o name = some v → v.Proper P s

namespace Store.Proper

variable {P : Token → Prop} {outer : FrameId} {s s' : Store}

/-- A store that only has other values in it. -/
theorem of_frames (h : s.Proper P outer) (hs : s.Grows s')
    (hsize : s'.frames.size = s.frames.size)
    (hgains : s.Gains s' (Value.Proper P s')) : s'.Proper P outer where
  there := hsize ▸ h.there
  outermost := (hs.parent outer h.there).trans h.outermost
  parent frame hlt hne := by
    rw [hsize] at hlt
    rw [hs.parent frame hlt]
    exact h.parent frame hlt hne
  bindings frame name b hb := by
    rcases hgains.bindings frame name b hb with hold | hnew
    · exact (h.bindings frame name b hold).grows hs
    · exact hnew
  fields o name v hv := by
    rcases hgains.fields o name v hv with hold | hnew
    · exact (h.fields o name v hold).grows hs
    · exact hnew

/-- A frame may bind a proper value. -/
theorem define (h : s.Proper P outer) (frame : FrameId) (name : String) {value : Value}
    (mutable : Bool) (hvalue : value.Proper P s) :
    (s.define frame name value mutable).Proper P outer := by
  have hgrows := s.define_grows frame name value mutable
  exact h.of_frames hgrows (Store.define_size ..)
    (Store.gains_define _ _ _ _ _ (hvalue.grows hgrows))

/-- A frame is made inside one that is there. -/
theorem newFrame (h : s.Proper P outer) {parent : FrameId} (hparent : parent < s.frames.size) :
    (s.newFrame (some parent)).2.Proper P outer := by
  have hgrows := s.newFrame_grows (some parent)
  refine ⟨Nat.lt_of_lt_of_le h.there hgrows.size, (hgrows.parent _ h.there).trans h.outermost,
    fun frame hlt hne => ?_, fun frame n b hb => ?_, fun o n v hv => ?_⟩
  · rw [Store.newFrame_size] at hlt
    rw [Store.newFrame_parent?_eq]
    split
    next heq => exact ⟨parent, rfl, heq ▸ hparent⟩
    next hold => exact h.parent frame (Nat.lt_of_le_of_ne (Nat.lt_succ_iff.mp hlt) hold) hne
  · rw [Store.newFrame_binding?] at hb
    exact (h.bindings frame n b hb).grows hgrows
  · exact (h.fields o n v hv).grows hgrows

/-- Drawing serial numbers leaves a store proper. -/
theorem drawn (h : s.Proper P outer) {n : Nat} (hn : s.nextSerial ≤ n) :
    Store.Proper P outer { s with nextSerial := n } :=
  h.of_frames (.of_frames rfl hn) rfl (Store.gains_drawn ..)

/-- A new object leaves a store proper. -/
theorem newObject (h : s.Proper P outer) (c : Class) : (s.newObject c).2.Proper P outer :=
  h.of_frames (.of_frames rfl (Nat.le_refl _)) rfl (Store.gains_newObject ..)

/-- A field of an object gets a value. -/
theorem setField (h : s.Proper P outer) (o : Object) (name : String) {value : Value}
    (hvalue : value.Proper P s) : (s.setField o name value).Proper P outer := by
  have hgrows : s.Grows (s.setField o name value) := .of_frames rfl (Nat.le_refl _)
  exact h.of_frames hgrows rfl (Store.gains_setField _ _ _ _ (hvalue.grows hgrows))

/-- What is found at a distance is proper. -/
theorem getAt? (h : s.Proper P outer) {frame : FrameId} {d : Nat} {name : String} {v : Value}
    (hv : s.getAt? frame d name = some v) : v.Proper P s := by
  obtain ⟨f, b, hb, rfl⟩ := Store.getAt?_binding hv
  exact h.bindings f name b hb

/-- A variable that may be missing, read as `nil` then. -/
theorem getAt?_getD (h : s.Proper P outer) (frame : FrameId) (d : Nat) (name : String) :
    ((s.getAt? frame d name).getD .nil).Proper P s := by
  cases hv : s.getAt? frame d name with
  | none => trivial
  | some v => exact h.getAt? hv

end Store.Proper

/-! ## Machines -/

/-- The store is proper, and the current frame is there. -/
structure Machine.Proper (P : Token → Prop) (m : Machine) : Prop where
  store : m.store.Proper P m.globals
  current : m.current < m.store.frames.size

/-- The second machine comes after the first one, and it is proper and in the same frame. -/
structure Machine.Follows (P : Token → Prop) (m m' : Machine) : Prop where
  grows : m.store.Grows m'.store
  proper : m'.Proper P
  current : m'.current = m.current
  globals : m'.globals = m.globals
  table : m'.table = m.table

namespace Machine

variable {P : Token → Prop} {m m' m'' : Machine}

theorem Follows.refl (h : m.Proper P) : m.Follows P m :=
  ⟨.refl _, h, rfl, rfl, rfl⟩

theorem Follows.trans (h : m.Follows P m') (h' : m'.Follows P m'') : m.Follows P m'' :=
  ⟨h.grows.trans h'.grows, h'.proper, h'.current.trans h.current, h'.globals.trans h.globals,
    h'.table.trans h.table⟩

/-- A machine with another store. -/
theorem Proper.withStore (h : m.Proper P) {s : Store} (hs : m.store.Grows s)
    (hproper : s.Proper P m.globals) : m.Follows P { m with store := s } :=
  ⟨hs, ⟨hproper, Nat.lt_of_lt_of_le h.current hs.size⟩, rfl, rfl, rfl⟩

/-- Input, output and host do not matter. -/
theorem Proper.unchanged (h : m.Proper P) (hm : Eval.Unchanged m m') : m.Follows P m' := by
  refine ⟨by rw [hm.store]; exact .refl _, ⟨?_, ?_⟩, hm.current, hm.globals, hm.table⟩
  · rw [hm.store, hm.globals]
    exact h.store
  · rw [hm.store, hm.current]
    exact h.current

/-- A machine may go into any frame that is there. -/
theorem Proper.atFrame (h : m.Proper P) {frame : FrameId} (hframe : frame < m.store.frames.size) :
    Machine.Proper P { m with current := frame } :=
  ⟨h.store, hframe⟩

/-- The value of a reference is proper. -/
theorem Proper.lookUp (h : m.Proper P) {site : Site} {name : String} {v : Value}
    (hv : m.lookUp site name = some v) : v.Proper P m.store := by
  obtain ⟨f, b, hb, rfl⟩ := Eval.lookUp_binding hv
  exact h.store.bindings f name b hb

end Machine

end Lox
