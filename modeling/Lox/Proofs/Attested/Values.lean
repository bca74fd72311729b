import Lox.Proofs.Session.Scopes

/-!
# Values that the log attests to

Objects are numbered in the order in which they are made, a class is made where its declaration is
executed, and an initializer comes into the hands of a program only by being taken as a method. The
moments so far attest to a value if they tell of all this: the number of an object is below the
number of objects made, the classes of its line of superclasses were declared, and a function that
is an initializer was taken from the ordinary method `init` of a declared class. What is attested
stays so as moments are added (`Value.Attested.later`).
-/

namespace Lox

namespace Eval

open Exec

/-! ## What the log tells of functions and classes -/

/-- At one of the moments `g` was taken as a method of the receiver, which made the function `f`. -/
def Taken (past : List Event) (g : Function) (receiver : Value) (f : Function) : Prop :=
  ∃ taking ∈ past, ∃ after, taking.occurrence = .step (.method g) none after ∧
    Eval.bind g receiver taking.machine = .ok f after

/-- At one of the moments a declaration was executed that made the class. -/
def Declared (past : List Event) (c : Class) : Prop :=
  ∃ declaration ∈ past, ∃ d superclass made after,
    declaration.occurrence = .step (.members d) none after ∧
    makeClass d superclass declaration.machine = .ok c made ∧
    define d.name.lexeme (.cls c) false made = .ok () after

/-- The function is the ordinary method `init` that a class declared at one of the moments has of
its own: no getter, no setter and no class method. -/
def OrdinaryInit (past : List Event) (g : Function) : Prop :=
  ∃ c, Declared past c ∧ c.methods[initializerName]? = some g ∧ g.kind = .method

section Past

variable {past past' : List Event}

/-- What was taken stays so as moments are added. -/
theorem Taken.mono {g f : Function} {receiver : Value} (h : Taken past g receiver f)
    (hpast : past ⊆ past') : Taken past' g receiver f := by
  obtain ⟨taking, hmem, h⟩ := h
  exact ⟨taking, hpast hmem, h⟩

/-- A class stays declared as moments are added. -/
theorem Declared.mono {c : Class} (h : Declared past c) (hpast : past ⊆ past') :
    Declared past' c := by
  obtain ⟨declaration, hmem, h⟩ := h
  exact ⟨declaration, hpast hmem, h⟩

/-- An initializer stays one as moments are added. -/
theorem OrdinaryInit.mono {g : Function} (h : OrdinaryInit past g) (hpast : past ⊆ past') :
    OrdinaryInit past' g := by
  obtain ⟨c, hc, h⟩ := h
  exact ⟨c, hc.mono hpast, h⟩

end Past

/-- A class that was declared has its initializers marked. -/
theorem Declared.flagged {past : List Event} {c : Class} (h : Declared past c) : Flagged c := by
  obtain ⟨declaration, _, d, superclass, made, after, _, hmade, _⟩ := h
  obtain ⟨c', n, hrun, _, hflagged⟩ := makeClass_ok d superclass declaration.machine
  cases hrun.symm.trans hmade
  exact hflagged

/-- An ordinary method `init` is marked as initializer. -/
theorem OrdinaryInit.isInitializer {past : List Event} {g : Function} (h : OrdinaryInit past g) :
    g.isInitializer = true := by
  obtain ⟨c, hc, hmethod, hkind⟩ := h
  exact (hc.flagged.method _ g hmethod).mpr ⟨rfl, hkind⟩

/-- A method is an initializer if it was taken from one. -/
theorem Taken.isInitializer {past : List Event} {g f : Function} {receiver : Value}
    (h : Taken past g receiver f) : f.isInitializer = g.isInitializer := by
  obtain ⟨_, _, _, _, hbind⟩ := h
  cases hbind
  rfl

end Eval

open Eval

/-! ## Attested values -/

/-- All classes of the lineage were declared. -/
def Class.Attested (past : List Event) (c : Class) : Prop :=
  ∀ d ∈ c.lineage, Declared past d

/-- The moments attest to the value, where so many objects have been made. -/
def Value.Attested (past : List Event) (objects : Nat) : Value → Prop
  | .function f => f.isInitializer = true → ∃ g receiver, Taken past g receiver f ∧
      OrdinaryInit past g
  | .cls c => c.Attested past
  | .object o => o.id < objects ∧ o.cls.Attested past
  | .nil | .bool _ | .number _ | .string _ | .native _ _ => True

section Attested

variable {past past' : List Event} {n n' : Nat}

/-- A value stays attested as moments and objects are added. -/
theorem Value.Attested.later {v : Value} (h : v.Attested past n) (hpast : past ⊆ past')
    (hn : n ≤ n') : v.Attested past' n' := by
  cases v with
  | function f =>
    intro hf
    obtain ⟨g, receiver, htaken, hinit⟩ := h hf
    exact ⟨g, receiver, htaken.mono hpast, hinit.mono hpast⟩
  | cls c => exact fun d hd => (h d hd).mono hpast
  | object o => exact ⟨Nat.lt_of_lt_of_le h.1 hn, fun d hd => (h.2 d hd).mono hpast⟩
  | _ => trivial

/-- A value without functions, classes and objects needs no attesting. -/
theorem Value.Attested.of_bare {v : Value} (h : v.Bare) : v.Attested past n := by
  cases v with
  | function f => exact h.elim
  | cls c => exact h.elim
  | object o => exact h.elim
  | _ => trivial

/-- A member of an attested class that is an initializer is its ordinary method `init`, or that of a
class above it. -/
theorem Class.Attested.findMethod {c : Class} (h : c.Attested past) {name : String} {f : Function}
    (hf : c.findMethod name = some f) (hinit : f.isInitializer = true) : OrdinaryInit past f := by
  rw [Class.findMethod_eq] at hf
  obtain ⟨d, hd, hf⟩ := List.exists_of_findSome?_eq_some hf
  obtain ⟨rfl, hkind⟩ := ((h d hd).flagged.method name f hf).mp hinit
  exact ⟨d, h d hd, hf, hkind⟩

/-- No class method is an initializer, not even one that is called `init`. -/
theorem Class.Attested.findClassMethod {c : Class} (h : c.Attested past) {name : String}
    {f : Function} (hf : c.findClassMethod name = some f) : f.isInitializer = false := by
  rw [Class.findClassMethod_eq] at hf
  obtain ⟨d, hd, hf⟩ := List.exists_of_findSome?_eq_some hf
  exact (h d hd).flagged.classMethod name f hf

end Attested

/-! ## Attested stores -/

/-- The moments attest to all that frames and fields hold. -/
structure Store.Attested (past : List Event) (s : Store) : Prop where
  bindings : ∀ frame name b, s.binding? frame name = some b → b.value.Attested past s.objects.size
  fields : ∀ o name v, s.field? o name = some v → v.Attested past s.objects.size

namespace Store.Attested

variable {past past' : List Event} {s s' : Store}

/-- A store that holds what another one does, and other attested values. -/
theorem grows (h : s.Attested past) (hpast : past ⊆ past')
    (hobjects : s.objects.size ≤ s'.objects.size)
    (hgains : s.Gains s' (Value.Attested past' s'.objects.size)) : s'.Attested past' := by
  refine ⟨fun frame name b hb => ?_, fun o name v hv => ?_⟩
  · rcases hgains.bindings frame name b hb with hold | hnew
    · exact (h.bindings frame name b hold).later hpast hobjects
    · exact hnew
  · rcases hgains.fields o name v hv with hold | hnew
    · exact (h.fields o name v hold).later hpast hobjects
    · exact hnew

/-- A store stays attested as moments are added. -/
theorem mono (h : s.Attested past) (hpast : past ⊆ past') : s.Attested past' :=
  h.grows hpast (Nat.le_refl _) s.gains_nothing

/-- A frame may bind an attested value. -/
theorem define (h : s.Attested past) (frame : FrameId) (name : String) {value : Value}
    (mutable : Bool) (hvalue : value.Attested past s.objects.size) :
    (s.define frame name value mutable).Attested past :=
  h.grows (fun _ => id) (Nat.le_refl _) (s.gains_define _ _ _ _ hvalue)

/-- A new frame binds nothing. -/
theorem newFrame (h : s.Attested past) (parent : Option FrameId) :
    (s.newFrame parent).2.Attested past :=
  h.grows (fun _ => id) (Nat.le_refl _) (s.gains_newFrame parent)

theorem drawn (h : s.Attested past) (n : Nat) :
    Store.Attested past { s with nextSerial := n } :=
  ⟨h.bindings, h.fields⟩

/-- A new object has no fields. -/
theorem newObject (h : s.Attested past) (c : Class) : (s.newObject c).2.Attested past := by
  have hsize : s.objects.size ≤ (s.newObject c).2.objects.size := by
    show _ ≤ (s.objects.push ∅).size
    rw [Array.size_push]
    exact Nat.le_succ _
  exact h.grows (fun _ => id) hsize (s.gains_newObject c)

/-- A field may hold an attested value. -/
theorem setField (h : s.Attested past) (o : Object) (name : String) {value : Value}
    (hvalue : value.Attested past s.objects.size) : (s.setField o name value).Attested past := by
  have hsize : (s.setField o name value).objects.size = s.objects.size := Array.size_modify ..
  exact h.grows (fun _ => id) (Nat.le_of_eq hsize.symm)
    (s.gains_setField o name value (hsize ▸ hvalue))

/-- What is found at a distance is attested. -/
theorem getAt? (h : s.Attested past) {frame : FrameId} {d : Nat} {name : String} {v : Value}
    (hv : s.getAt? frame d name = some v) : v.Attested past s.objects.size := by
  obtain ⟨f, b, hb, rfl⟩ := Store.getAt?_binding hv
  exact h.bindings f name b hb

/-- A variable that may be missing, read as `nil` then. -/
theorem getAt?_getD (h : s.Attested past) (frame : FrameId) (d : Nat) (name : String) :
    ((s.getAt? frame d name).getD .nil).Attested past s.objects.size := by
  cases hv : s.getAt? frame d name with
  | none => trivial
  | some v => exact h.getAt? hv

/-- Names bound one after the other. -/
theorem bindAll (h : s.Attested past) (frame : FrameId) (mutable : Bool)
    (pairs : List (Token × Value))
    (hpairs : ∀ p ∈ pairs, p.2.Attested past s.objects.size) :
    (Eval.bindAll frame mutable pairs s).Attested past ∧
      (Eval.bindAll frame mutable pairs s).objects.size = s.objects.size := by
  induction pairs generalizing s with
  | nil => exact ⟨h, rfl⟩
  | cons p pairs ih =>
    exact ih (h.define frame p.1.lexeme mutable (hpairs p List.mem_cons_self))
      fun q hq => hpairs q (List.mem_cons_of_mem _ hq)

/-- The frame in which the members of a class are made. -/
theorem memberStore {m : Machine} (h : m.store.Attested past) {superclass : Option Class}
    (hsuper : ∀ c ∈ superclass, c.Attested past) :
    (Eval.memberStore superclass m).Attested past ∧
      (Eval.memberStore superclass m).objects.size = m.store.objects.size := by
  cases superclass with
  | none => exact ⟨h, rfl⟩
  | some c => exact ⟨(h.newFrame _).define _ "super" false (hsuper c rfl), rfl⟩

end Store.Attested

end Lox
