import Lox.Proofs.Library
import Lox.Proofs.Proper.Values
import Mathlib.Logic.Relation

/-!
# What can be reached

Frames hold values, functions close over frames and objects have fields, so the links between them
may form cycles. The links from a frame to the one around it do not, and neither do those from a
class to its superclass: in a proper store both lead to what was made earlier. So the chain of any
frame that can be reached ends at the globals, and looking a name up comes to an end with the frames
of that chain (`Store.Grounded`).
-/

namespace Lox

/-- Something that a program can get hold of. -/
inductive Node where
  | frame (frame : FrameId)
  | value (value : Value)

/-- The first thing leads to the second one in one hop. -/
inductive Store.Leads (s : Store) : Node → Node → Prop where
  | enclosing {frame parent : FrameId} (h : s.parent? frame = some parent) :
      s.Leads (.frame frame) (.frame parent)
  | binding {frame : FrameId} {name : String} {b : Binding} (h : s.binding? frame name = some b) :
      s.Leads (.frame frame) (.value b.value)
  | closure (f : Function) : s.Leads (.value (.function f)) (.frame f.closure)
  | superclass {c d : Class} (h : c.superclass = some d) :
      s.Leads (.value (.cls c)) (.value (.cls d))
  | method {c : Class} {name : String} {f : Function} (h : c.methods[name]? = some f) :
      s.Leads (.value (.cls c)) (.value (.function f))
  | classMethod {c : Class} {name : String} {f : Function} (h : c.classMethods[name]? = some f) :
      s.Leads (.value (.cls c)) (.value (.function f))
  | cls (o : Object) : s.Leads (.value (.object o)) (.value (.cls o.cls))
  | field {o : Object} {name : String} {v : Value} (h : s.field? o name = some v) :
      s.Leads (.value (.object o)) (.value v)

/-- In any number of hops. -/
abbrev Store.Reaches (s : Store) : Node → Node → Prop :=
  Relation.ReflTransGen s.Leads

/-- The frame is there, or the value is proper. -/
def Node.Proper (P : Token → Prop) (s : Store) : Node → Prop
  | .frame f => f < s.frames.size
  | .value v => v.Proper P s

section Proper

variable {P : Token → Prop} {outer : FrameId} {s s' : Store}

/-- The superclass of a proper class is proper. -/
theorem Class.Proper.superclass {c d : Class} (h : c.Proper P s) (hd : c.superclass = some d) :
    d.Proper P s := by
  obtain ⟨holder, hdrawn, hmethod, hclassMethod⟩ := h
  rw [lineage_eq, hd] at holder hdrawn hmethod hclassMethod
  exact ⟨(List.pairwise_cons.mp holder).2, fun e he => hdrawn e (List.mem_cons_of_mem _ he),
    fun e he => hmethod e (List.mem_cons_of_mem _ he),
    fun e he => hclassMethod e (List.mem_cons_of_mem _ he)⟩

namespace Store.Proper

variable {a b : Node}

/-- The parent of a frame was made before it. -/
theorem parent_lt (h : s.Proper P outer) {frame parent : FrameId}
    (hp : s.parent? frame = some parent) : parent < frame := by
  have hlt : frame < s.frames.size := by
    by_contra hle
    rw [Store.parent?, Array.getElem?_eq_none (Nat.not_lt.mp hle)] at hp
    cases hp
  have hne : frame ≠ outer := by
    rintro rfl
    rw [h.outermost] at hp
    cases hp
  obtain ⟨_, hparent, hearlier⟩ := h.parent frame hlt hne
  cases hp.symm.trans hparent
  exact hearlier

/-- Only the outermost frame is inside no other. -/
theorem parent?_eq_none_iff (h : s.Proper P outer) {frame : FrameId}
    (hlt : frame < s.frames.size) : s.parent? frame = none ↔ frame = outer := by
  refine ⟨fun hnone => ?_, fun heq => heq ▸ h.outermost⟩
  by_contra hne
  obtain ⟨parent, hparent, _⟩ := h.parent frame hlt hne
  rw [hnone] at hparent
  cases hparent

/-- A hop from something proper leads to something proper. -/
theorem leads (h : s.Proper P outer) (hab : s.Leads a b) (ha : a.Proper P s) : b.Proper P s := by
  cases hab with
  | enclosing hp => exact Nat.lt_trans (h.parent_lt hp) ha
  | binding hb => exact h.bindings _ _ _ hb
  | closure f => exact ha.closure
  | superclass hd => exact Class.Proper.superclass ha hd
  | method hf => exact ha.method _ (Class.self_mem_lineage _) _ _ hf
  | classMethod hf => exact ha.classMethod _ (Class.self_mem_lineage _) _ _ hf
  | cls o => exact ha
  | field hv => exact h.fields _ _ _ hv

/-- All that can be reached from something proper is proper. -/
theorem reaches (h : s.Proper P outer) (hab : s.Reaches a b) (ha : a.Proper P s) :
    b.Proper P s := by
  induction hab with
  | refl => exact ha
  | tail _ hbc ih => exact h.leads hbc ih

end Store.Proper

end Proper

/-! ## Chains that end -/

namespace Store

/-- The value that the frame binds the name to. -/
def value? (s : Store) (name : String) (frame : FrameId) : Option Value :=
  (s.binding? frame name).map Binding.value

/-- What becomes of an assignment to the variable of this frame, if the frame binds the name. -/
def assigned? (s : Store) (name : String) (value : Value) (frame : FrameId) :
    Option (Except AssignFault Store) :=
  (s.binding? frame name).map fun b =>
    if b.mutable then .ok (s.define frame name value true) else .error .constant

/-- The frames from `frame` up are `fs`, each made before the one inside it, and the last of them is
`outer`. Looking a name up goes through just these frames. -/
structure Grounded (s : Store) (outer frame : FrameId) (fs : List FrameId) : Prop where
  chain : s.Chain frame fs
  last : fs.getLast? = some outer
  earlier : fs.Pairwise fun f g => g < f
  get : ∀ name, s.get? frame name = fs.findSome? (s.value? name)
  assign : ∀ name value, s.assign frame name value =
    (fs.findSome? (s.assigned? name value)).getD (.error .undefined)
  ancestor : ∀ d, s.ancestor? frame d = fs[d]?

variable {s : Store} {frame outer : FrameId} {fs : List FrameId}

/-- A search that may go as far as the chain finds the first frame of it that binds the name. -/
theorem Chain.searchWithin (h : s.Chain frame fs) (name : String) {steps : Nat}
    (hsteps : fs.length ≤ steps) :
    s.searchWithin name steps frame = fs.find? fun f => (s.binding? f name).isSome := by
  induction h generalizing steps with
  | last hlt hp =>
    obtain ⟨steps, rfl⟩ := Nat.exists_eq_add_one_of_ne_zero (Nat.ne_of_gt hsteps)
    rw [Store.searchWithin, hp, List.find?_singleton]
    rfl
  | @link frame parent fs hlt hp hc ih =>
    obtain ⟨steps, rfl⟩ :=
      Nat.exists_eq_add_one_of_ne_zero (Nat.ne_of_gt (Nat.lt_of_lt_of_le (Nat.succ_pos _) hsteps))
    rw [Store.searchWithin, hp, List.find?_cons]
    cases (s.binding? frame name).isSome with
    | true => rfl
    | false => exact ih (Nat.le_of_succ_le_succ hsteps)

/-- An assignment to the variable of one frame. -/
theorem targetIn_map (s : Store) (name : String) (value : Value) (frame : FrameId) :
    ((s.targetIn name frame).map fun f => s.define f name value true) =
      (s.assigned? name value frame).getD (.error .undefined) := by
  unfold targetIn assigned?
  cases s.binding? frame name with
  | none => rfl
  | some b =>
    cases hmutable : b.mutable <;> simp [hmutable, Except.map]

/-- In a proper store every frame has its chain, no longer than there are frames up to it. -/
theorem Proper.chain {P : Token → Prop} (h : s.Proper P outer) (hlt : frame < s.frames.size) :
    ∃ fs, s.Chain frame fs ∧ fs.getLast? = some outer ∧
      (fs.Pairwise fun f g => g < f) ∧ (∀ f ∈ fs, f ≤ frame) ∧ fs.length ≤ frame + 1 := by
  -- by induction on the number of the frame, since parents have smaller ones
  induction frame using Nat.strongRecOn with
  | ind frame ih =>
    by_cases hout : frame = outer
    · subst hout
      exact ⟨[frame], .last hlt h.outermost, rfl, List.pairwise_singleton _ _,
        fun f hf => Nat.le_of_eq (List.mem_singleton.mp hf), Nat.succ_le_succ (Nat.zero_le _)⟩
    obtain ⟨parent, hp, hearlier⟩ := h.parent frame hlt hout
    obtain ⟨fs, hchain, hlast, hdown, hle, hlength⟩ :=
      ih parent hearlier (Nat.lt_trans hearlier hlt)
    refine ⟨frame :: fs, .link hlt hp hchain, ?_, ?_, fun f hf => ?_, ?_⟩
    · rw [List.getLast?_cons, hlast]
      rfl
    · exact List.pairwise_cons.mpr ⟨fun f hf => Nat.lt_of_le_of_lt (hle f hf) hearlier, hdown⟩
    · rcases List.mem_cons.mp hf with rfl | hf
      · exact Nat.le_refl _
      · exact Nat.le_trans (hle f hf) (Nat.le_of_lt hearlier)
    · exact Nat.succ_le_succ (Nat.le_trans hlength hearlier)

/-- The chain of a frame in a proper store is looked through up to its end at the globals. -/
theorem Proper.grounded {P : Token → Prop} (h : s.Proper P outer) (hlt : frame < s.frames.size) :
    ∃ fs, s.Grounded outer frame fs := by
  obtain ⟨fs, hchain, hlast, hdown, _, hlength⟩ := h.chain hlt
  have hsearch : ∀ name, s.search frame name = fs.find? fun f => (s.binding? f name).isSome :=
    fun name => hchain.searchWithin name (Nat.le_trans hlength hlt)
  refine ⟨fs, hchain, hlast, hdown, fun name => ?_, fun name value => ?_, hchain.ancestor?⟩
  · rw [Store.get?, hsearch]
    exact (List.findSome?_eq_find? (fun f => Option.isSome_map.symm) fs).symm
  · rw [Store.assign, Store.target, hsearch,
      List.findSome?_eq_find? (f := s.assigned? name value) (fun f => Option.isSome_map.symm) fs]
    cases fs.find? fun f => (s.binding? f name).isSome with
    | none => rfl
    | some f => exact s.targetIn_map name value f

end Store

/-! ## Lineages that end -/

/-- Classes of the lineage were made after their superclasses, and finding a member goes through
just these classes. -/
structure Class.Grounded (c : Class) : Prop where
  earlier : c.lineage.Pairwise fun d e => e.serial < d.serial
  method : ∀ name, c.findMethod name = c.lineage.findSome? fun d => d.methods[name]?
  classMethod : ∀ name, c.findClassMethod name = c.lineage.findSome? fun d => d.classMethods[name]?
  arity : c.arity =
    ((c.lineage.findSome? fun d => d.methods[initializerName]?).map Function.arity).getD 0

theorem Class.Proper.grounded {P : Token → Prop} {s : Store} {c : Class} (h : c.Proper P s) :
    c.Grounded := by
  refine ⟨h.older, fun name => findMethod_eq name c, fun name => findClassMethod_eq name c, ?_⟩
  rw [← findMethod_eq, arity, initializer?]
  cases c.findMethod initializerName <;> rfl

end Lox
