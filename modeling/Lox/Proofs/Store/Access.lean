import Lox.Machine
import Lox.Proofs.Store.Reachable
import Mathlib.Data.List.Perm.Subperm

/-!
# Access by distance and access by search

A variable is reached in two ways. A resolved reference takes a known number of steps up the chain
and uses that frame only; an unresolved one looks through the chain for the first frame that binds
the name. The two ways are written separately, each with its own way of failing.

`distance_access_agrees`: in a store whose chains end, the two do the same wherever the distance is
the one at which the name is first bound (`Store.Nearest`). They read the same value, they accept or
refuse the same assignments for the same reason, and an accepted one changes that single binding
(`Store.Overwritten`). Where no frame of the chain binds the name, both fail at every distance.
-/

namespace Lox

namespace Store

/-- Every frame has a chain that comes to an end. -/
def Ending (s : Store) : Prop :=
  ∀ frame < s.frames.size, ∃ fs, s.Chain frame fs

/-- The frame `f` lies `d` steps above `frame`, and is the first on the way to bind the name. -/
structure Nearest (s : Store) (frame : FrameId) (name : String) (d : Nat) (f : FrameId) :
    Prop where
  ancestor : s.ancestor? frame d = some f
  binds : s.Binds f name
  least : ∀ e < d, ∀ g, s.ancestor? frame e = some g → ¬ s.Binds g name

/-- No frame of the chain binds the name. -/
def Unbound (s : Store) (frame : FrameId) (name : String) : Prop :=
  ∀ d f, s.ancestor? frame d = some f → ¬ s.Binds f name

/-- The second store is the first with another value for one variable, which stays mutable. -/
structure Overwritten (s s' : Store) (frame : FrameId) (name : String) (value : Value) : Prop where
  size : s'.frames.size = s.frames.size
  parent : ∀ f, s'.parent? f = s.parent? f
  objects : s'.objects = s.objects
  serial : s'.nextSerial = s.nextSerial
  written : s'.binding? frame name = some ⟨value, true⟩
  others : ∀ f n, ¬ (f = frame ∧ n = name) → s'.binding? f n = s.binding? f n

variable {s : Store} {frame f : FrameId} {fs : List FrameId} {name : String} {d : Nat}

/-! ## A chain that ends has no frame twice -/

/-- A frame has one chain. -/
theorem Chain.unique {gs : List FrameId} (h : s.Chain frame fs) (h' : s.Chain frame gs) :
    fs = gs := by
  induction h generalizing gs with
  | last hlt hp =>
    cases h' with
    | last _ _ => rfl
    | link _ hp' _ => cases hp.symm.trans hp'
  | link hlt hp _ ih =>
    cases h' with
    | last _ hp' => cases hp.symm.trans hp'
    | link _ hp' hc' =>
      cases hp.symm.trans hp'
      rw [ih hc']

/-- The chain of a frame further up is the rest of the chain from there. -/
theorem Chain.suffix (h : s.Chain frame fs) (hf : f ∈ fs) : ∃ gs, s.Chain f gs ∧ gs <:+ fs := by
  induction h with
  | last hlt hp =>
    cases List.mem_singleton.mp hf
    exact ⟨_, .last hlt hp, List.suffix_refl _⟩
  | link hlt hp hc ih =>
    rcases List.mem_cons.mp hf with rfl | hf
    · exact ⟨_, .link hlt hp hc, List.suffix_refl _⟩
    · obtain ⟨gs, hgs, hsuffix⟩ := ih hf
      exact ⟨gs, hgs, hsuffix.trans (List.suffix_cons _ _)⟩

/-- All frames of a chain are there. -/
theorem Chain.mem_lt (h : s.Chain frame fs) (hf : f ∈ fs) : f < s.frames.size :=
  let ⟨_, hgs, _⟩ := h.suffix hf
  hgs.lt_size

/-- Parents are made before their frames, so no chain comes by a frame twice. -/
theorem Chain.nodup (h : s.Chain frame fs) : fs.Nodup := by
  induction h with
  | last => exact List.pairwise_singleton _ _
  | @link frame parent fs hlt hp hc ih =>
    refine List.nodup_cons.mpr ⟨fun hmem => ?_, ih⟩
    -- the chain from the second place on would be the whole chain again, and longer than itself
    obtain ⟨gs, hgs, hsuffix⟩ := hc.suffix hmem
    have hlength := hsuffix.length_le
    rw [← (Chain.link hlt hp hc).unique hgs] at hlength
    exact Nat.not_succ_le_self _ hlength

/-- No chain is longer than the store is large. -/
theorem Chain.length_le (h : s.Chain frame fs) : fs.length ≤ s.frames.size := by
  have hsub : fs ⊆ List.range s.frames.size := fun f hf => List.mem_range.mpr (h.mem_lt hf)
  simpa using (List.subperm_of_subset h.nodup hsub).length_le

/-- Looking a name up goes through the whole chain. -/
theorem Chain.search (h : s.Chain frame fs) (name : String) :
    s.search frame name = fs.find? fun f => (s.binding? f name).isSome :=
  h.searchWithin name h.length_le

/-! ## Stores whose chains end -/

/-- An empty store has no frame without an end. -/
theorem empty_ending : empty.Ending :=
  fun _ h => absurd h (Nat.not_lt_zero _)

/-- Chains stay as they are where the store grows without new frames. -/
theorem Ending.grows {s' : Store} (h : s.Ending) (hs : Grows s s')
    (hsize : s'.frames.size = s.frames.size) : s'.Ending := by
  intro frame hlt
  obtain ⟨fs, hfs⟩ := h frame (hsize ▸ hlt)
  exact ⟨fs, hfs.grows hs⟩

/-- Binding a name adds no frame. -/
theorem Ending.define (h : s.Ending) (frame : FrameId) (name : String) (value : Value)
    (mutable : Bool) : (s.define frame name value mutable).Ending :=
  h.grows (define_grows s frame name value mutable) (by simp)

/-- A new frame inside one that is there, or inside none, has a chain that ends. -/
theorem Ending.newFrame (h : s.Ending) {parent : Option FrameId}
    (hparent : ∀ p ∈ parent, p < s.frames.size) : (s.newFrame parent).2.Ending := by
  intro frame hlt
  rw [newFrame_size] at hlt
  rcases Nat.lt_succ_iff_lt_or_eq.mp hlt with hold | rfl
  · obtain ⟨fs, hfs⟩ := h frame hold
    exact ⟨fs, hfs.grows (newFrame_grows s parent)⟩
  have hnew : s.frames.size < (s.newFrame parent).2.frames.size := by simp
  cases parent with
  | none => exact ⟨_, .last hnew (newFrame_parent?_new s none)⟩
  | some p =>
    obtain ⟨fs, hfs⟩ := h p (hparent p rfl)
    exact ⟨_, .link hnew (newFrame_parent?_new s (some p)) (hfs.grows (newFrame_grows s _))⟩

/-- The stores that programs work on are like this. -/
theorem Proper.ending {P : Token → Prop} {outer : FrameId} (h : s.Proper P outer) : s.Ending :=
  fun _ hlt => let ⟨fs, hfs, _⟩ := h.chain hlt; ⟨fs, hfs⟩

/-! ## The frame that both ways come to -/

/-- A search stops at the frame that binds the name first. -/
theorem Nearest.search (h : s.Nearest frame name d f) (hc : s.Chain frame fs) :
    s.search frame name = some f := by
  have hplace : fs[d]? = some f := (hc.ancestor? d).symm.trans h.ancestor
  obtain ⟨hd, hfd⟩ := List.getElem?_eq_some_iff.mp hplace
  rw [hc.search name, List.find?_eq_some_iff_getElem]
  refine ⟨?_, d, hd, hfd, fun e he => ?_⟩
  · obtain ⟨b, hb⟩ := h.binds
    rw [hb]
    rfl
  · have hunbound := h.least e he fs[e] ((hc.ancestor? e).trans (List.getElem?_eq_getElem _))
    rw [Bool.not_eq_true', Option.isSome_eq_false_iff, Option.isNone_iff_eq_none]
    exact Option.eq_none_iff_forall_ne_some.mpr fun b hb => hunbound ⟨b, hb⟩

/-- A search for a name that is not bound comes to the end of the chain. -/
theorem Unbound.search (h : s.Unbound frame name) (hc : s.Chain frame fs) :
    s.search frame name = none := by
  rw [hc.search name, List.find?_eq_none]
  intro f hf hsome
  obtain ⟨d, hd, rfl⟩ := List.getElem_of_mem hf
  exact h d _ ((hc.ancestor? d).trans (List.getElem?_eq_getElem hd))
    (Option.isSome_iff_exists.mp hsome)

/-- Reading at the distance finds the binding of that frame. -/
theorem Nearest.getAt (h : s.Nearest frame name d f) :
    s.getAt? frame d name = (s.binding? f name).map Binding.value := by
  rw [getAt?, h.ancestor]
  rfl

/-- Searching finds the same binding. -/
theorem Nearest.get (h : s.Nearest frame name d f) (hc : s.Chain frame fs) :
    s.get? frame name = (s.binding? f name).map Binding.value := by
  rw [get?, h.search hc]
  rfl

/-- An assignment at the distance goes to that frame. -/
theorem Nearest.targetAt (h : s.Nearest frame name d f) :
    s.targetAt frame d name = s.targetIn name f := by
  rw [Store.targetAt, h.ancestor]

/-- An assignment by search goes to the same frame. -/
theorem Nearest.target (h : s.Nearest frame name d f) (hc : s.Chain frame fs) :
    s.target frame name = s.targetIn name f := by
  rw [Store.target, h.search hc]

/-- A frame that binds the name takes an assignment unless it is a constant. -/
theorem targetIn_of_binding {b : Binding} (h : s.binding? f name = some b) :
    s.targetIn name f = if b.mutable then .ok f else .error .constant := by
  rw [targetIn, h]

/-- A frame that does not bind the name takes none. -/
theorem targetIn_of_unbound (h : ¬ s.Binds f name) : s.targetIn name f = .error .undefined := by
  have hnone : s.binding? f name = none :=
    Option.eq_none_iff_forall_ne_some.mpr fun b hb => h ⟨b, hb⟩
  rw [targetIn, hnone]

/-- Writing to a variable changes nothing else. -/
theorem define_overwritten {b : Binding} (h : s.binding? f name = some b) (value : Value) :
    s.Overwritten (s.define f name value true) f name value where
  size := define_size s f name value true
  parent g := define_parent? s f name value true g
  objects := rfl
  serial := rfl
  written := by
    have hlt : f < s.frames.size := by
      by_contra hle
      rw [binding?, Array.getElem?_eq_none (Nat.not_lt.mp hle)] at h
      cases h
    rw [define_binding?, if_pos ⟨rfl, rfl, hlt⟩]
  others g n hother := by
    rw [define_binding?, if_neg]
    rintro ⟨rfl, rfl, _⟩
    exact hother ⟨rfl, rfl⟩

/-! ## A name that is not bound -/

/-- No distance leads to a value, be it inside the chain or past its end. -/
theorem Unbound.getAt (h : s.Unbound frame name) (d : Nat) : s.getAt? frame d name = none := by
  rw [getAt?]
  cases hf : s.ancestor? frame d with
  | none => rfl
  | some f =>
    rw [Option.bind_some, Option.map_eq_none_iff]
    exact Option.eq_none_iff_forall_ne_some.mpr fun b hb => h d f hf ⟨b, hb⟩

/-- No frame takes an assignment at any distance. -/
theorem Unbound.targetAt (h : s.Unbound frame name) (d : Nat) :
    s.targetAt frame d name = .error .undefined := by
  rw [Store.targetAt]
  cases hf : s.ancestor? frame d with
  | none => rfl
  | some f => exact targetIn_of_unbound (h d f hf)

/-- Searching finds nothing. -/
theorem Unbound.get (h : s.Unbound frame name) (hc : s.Chain frame fs) :
    s.get? frame name = none := by
  rw [get?, h.search hc]
  rfl

/-- No frame takes an assignment by search. -/
theorem Unbound.target (h : s.Unbound frame name) (hc : s.Chain frame fs) :
    s.target frame name = .error .undefined := by
  rw [Store.target, h.search hc]

end Store

/-! ## The two ways of access -/

/-- The frame that access to a reference starts from: the current one if the reference is resolved,
else that of the globals. -/
def Machine.origin (m : Machine) (site : Site) : FrameId :=
  if (m.table[site]?).isSome then m.current else m.globals

variable {s : Store} {frame f : FrameId} {name : String} {d : Nat}

/-- A machine that finds no variable for a reference says so at the reference, and is left as it
was. -/
theorem Exec.access_unbound {m : Machine} {site : Site} {token : Token} {fs : List FrameId}
    (hc : m.store.Chain (m.origin site) fs)
    (h : m.store.Unbound (m.origin site) token.lexeme) (value : Value) :
    Exec.lookUp site token m = .error (.fault ⟨token, .undefinedVariable⟩) m ∧
      Exec.assign site token value m = .error (.fault ⟨token, .undefinedVariable⟩) m := by
  have hboth : m.lookUp site token.lexeme = none ∧
      m.target site token.lexeme = .error .undefined := by
    unfold Machine.origin at h hc
    unfold Machine.lookUp Machine.target
    cases hsite : m.table[site]? with
    | none =>
      rw [hsite] at h hc
      exact ⟨h.get hc, h.target hc⟩
    | some d =>
      rw [hsite] at h hc
      exact ⟨h.getAt d, h.targetAt d⟩
  constructor
  · have hget : ∀ f : Machine → Exec Value, (get >>= f) m = f m m := fun _ => rfl
    rw [Exec.lookUp, hget, hboth.1]
    rfl
  · rw [Exec.assign, hboth.2]
    rfl

/-- An assignment to a constant says so at the reference, and the machine is left as it was. A
resolved reference has the distance of the nearest binding. -/
theorem Exec.assign_constant {m : Machine} {site : Site} {token : Token} {fs : List FrameId}
    {b : Binding} (hc : m.store.Chain (m.origin site) fs)
    (h : m.store.Nearest (m.origin site) token.lexeme d f)
    (hsite : ∀ e, m.table[site]? = some e → e = d)
    (hb : m.store.binding? f token.lexeme = some b) (hconstant : b.mutable = false)
    (value : Value) :
    Exec.assign site token value m = .error (.fault ⟨token, .constantReassigned⟩) m := by
  have htarget : m.target site token.lexeme = .error .constant := by
    have hin : m.store.targetIn token.lexeme f = .error .constant := by
      rw [Store.targetIn_of_binding hb, hconstant]
      rfl
    unfold Machine.origin at h hc
    unfold Machine.target
    cases he : m.table[site]? with
    | none =>
      rw [he] at h hc
      exact (h.target hc).trans hin
    | some e =>
      obtain rfl := hsite e he
      rw [he] at h
      exact h.targetAt.trans hin
  rw [Exec.assign, htarget]
  rfl

/-- Where chains end, access at the distance of the nearest binding is access by search. Both read
its value; both refuse to assign to it if it is a constant, and else lead to the same store, which
differs from the former one in its value only. Where no frame of the chain binds the name, both
fail: a search, and every distance, be it inside the chain or past its end. A machine that runs into
such a failure reports it at the reference and stays the same. -/
theorem Store.distance_access_agrees (hs : s.Ending) (hframe : frame < s.frames.size)
    (name : String) (value : Value) :
    (∀ d f, s.Nearest frame name d f →
      s.getAt? frame d name = s.get? frame name ∧
      s.assignAt frame d name value = s.assign frame name value ∧
      ∃ b, s.binding? f name = some b ∧ s.get? frame name = some b.value ∧
        (b.mutable = true → ∃ s', s.assign frame name value = .ok s' ∧
          s.Overwritten s' f name value) ∧
        (b.mutable = false → s.assign frame name value = .error .constant ∧
          ∀ (m : Machine) site token, m.store = s → m.origin site = frame →
            (∀ e, m.table[site]? = some e → e = d) → token.lexeme = name →
            Exec.assign site token value m = .error (.fault ⟨token, .constantReassigned⟩) m)) ∧
    (s.Unbound frame name →
      s.get? frame name = none ∧
      s.assign frame name value = .error .undefined ∧
      (∀ d, s.getAt? frame d name = none ∧
        s.assignAt frame d name value = .error .undefined) ∧
      ∀ (m : Machine) site token, m.store = s → m.origin site = frame → token.lexeme = name →
        Exec.lookUp site token m = .error (.fault ⟨token, .undefinedVariable⟩) m ∧
        Exec.assign site token value m = .error (.fault ⟨token, .undefinedVariable⟩) m) := by
  -- `fs` is the chain of frames that both kinds of access go along
  obtain ⟨fs, hc⟩ := hs frame hframe
  refine ⟨fun d f h => ?_, fun h => ?_⟩
  · obtain ⟨b, hb⟩ := h.binds
    have hassign : s.assign frame name value =
        (s.targetIn name f).map fun f => s.define f name value true := by
      rw [Store.assign, h.target hc]
    refine ⟨h.getAt.trans (h.get hc).symm, ?_, b, hb, ?_, fun hmutable => ?_, fun hconstant => ?_⟩
    · rw [hassign, Store.assignAt, h.targetAt]
    · rw [h.get hc, hb]
      rfl
    · refine ⟨s.define f name value true, ?_, define_overwritten hb value⟩
      rw [hassign, targetIn_of_binding hb, if_pos hmutable]
      rfl
    · refine ⟨?_, ?_⟩
      · rw [hassign, targetIn_of_binding hb, hconstant]
        rfl
      · rintro m site token rfl rfl hsite rfl
        exact Exec.assign_constant hc h hsite hb hconstant value
  · refine ⟨h.get hc, ?_, fun d => ⟨h.getAt d, ?_⟩, ?_⟩
    · rw [Store.assign, h.target hc]
      rfl
    · rw [Store.assignAt, h.targetAt]
      rfl
    · rintro m site token rfl rfl rfl
      exact Exec.access_unbound hc h value

/-! A chain of three frames: the outermost binds a constant, the next one shadows it with a variable
of the same name, and the innermost binds nothing. -/

/-- The store with these frames. -/
def Store.shadowed : Store :=
  let s := (Store.empty.newFrame none).2.define 0 "x" (.string "outer") false
  let s := (s.newFrame (some 0)).2.define 1 "x" (.string "inner") true
  (s.newFrame (some 1)).2

/-- The chain of each of the frames ends at the outermost. -/
theorem Store.shadowed_ending : shadowed.Ending := by
  refine Ending.newFrame (Ending.define (Ending.newFrame (Ending.define (Ending.newFrame
    empty_ending ?_) _ _ _ _) ?_) _ _ _ _) ?_ <;> simp [empty]

/-- The chain of the innermost frame. -/
theorem Store.shadowed_chain : shadowed.Chain 2 [2, 1, 0] := by
  have hsize : shadowed.frames.size = 3 := by simp [shadowed, empty]
  refine .link (hsize ▸ by decide) ?_ (.link (hsize ▸ by decide) ?_ (.last (hsize ▸ by decide) ?_))
    <;> simp [shadowed, newFrame_parent?_eq, empty]

/-- The example binds one name in two of its frames, the inner binding being mutable. -/
theorem Store.shadowed_binding? (frame : FrameId) (name : String) :
    shadowed.binding? frame name =
      if name = "x" ∧ frame = 1 then some ⟨.string "inner", true⟩
      else if name = "x" ∧ frame = 0 then some ⟨.string "outer", false⟩ else none := by
  have hempty : (⟨#[], #[], 0⟩ : Store).binding? frame name = none := rfl
  simp [shadowed, define_binding?, empty, hempty, and_comm, eq_comm]

/-- From the innermost frame, the variable is the one a step away. -/
theorem Store.shadowed_nearest : shadowed.Nearest 2 "x" 1 1 where
  ancestor := shadowed_chain.ancestor? 1
  binds := ⟨_, by rw [shadowed_binding?, if_pos ⟨rfl, rfl⟩]⟩
  least e he g hg hb := by
    obtain rfl : e = 0 := by omega
    rw [shadowed_chain.ancestor?] at hg
    cases hg
    obtain ⟨b, hb⟩ := hb
    rw [shadowed_binding?] at hb
    simp at hb

/-- None of the frames binds another name. -/
theorem Store.shadowed_unbound : shadowed.Unbound 2 "y" := by
  rintro d f - ⟨b, hb⟩
  rw [shadowed_binding?] at hb
  simp at hb

/-- The variable that shadows the constant is read and assigned to, and a name that is not bound is
not found. -/
theorem Store.shadowed_access :
    shadowed.getAt? 2 1 "x" = shadowed.get? 2 "x" ∧ shadowed.get? 2 "x" = some (.string "inner") ∧
      shadowed.assignAt 2 1 "x" .nil = shadowed.assign 2 "x" .nil ∧
      (∃ s', shadowed.assign 2 "x" .nil = .ok s' ∧ shadowed.Overwritten s' 1 "x" .nil) ∧
      (∀ d, shadowed.getAt? 2 d "y" = none) ∧ shadowed.assign 2 "y" .nil = .error .undefined := by
  have hlt : 2 < shadowed.frames.size := shadowed_chain.lt_size
  obtain ⟨hget, hassign, b, hb, hvalue, hmutable, -⟩ :=
    (distance_access_agrees shadowed_ending hlt "x" .nil).1 1 1 shadowed_nearest
  obtain ⟨-, hrefused, hnone, -⟩ :=
    (distance_access_agrees shadowed_ending hlt "y" .nil).2 shadowed_unbound
  rw [shadowed_binding?] at hb
  cases hb
  exact ⟨hget, hvalue, hassign, hmutable rfl, fun d => (hnone d).1, hrefused⟩

end Lox
