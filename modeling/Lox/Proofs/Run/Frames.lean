import Lox.Proofs.Run.Makes

/-!
# Frames for blocks and calls

The frame of a block lies inside the current one, that of a call inside the closure of the function.
The frame of a call binds all parameters, so it binds what the scope of the body begins with.
-/

namespace Lox.Eval

open Exec

variable {r : Run} {around : Surroundings}

/-- A frame is made for a block. -/
theorem blockFrame_kept (h : r.Sound) {w : Walk} {ps : List Place} (body : List Stmt)
    (hsurrounds : Surrounds r r.machine.current around.frames w.scopes ps) :
    ∃ frame m, innerFrame r.machine = .ok frame m ∧
      Run.Kept r (r.stepTo around (.frame (.block body)) m) ∧
      Surrounds (r.stepTo around (.frame (.block body)) m) frame (frame :: around.frames)
        w.opened.scopes (⟨.block body, none⟩ :: ps) := by
  let frame := r.machine.store.frames.size
  let s : Store := (r.machine.store.newFrame (some r.machine.current)).2
  let r₁ := r.remembering around (.frame (.block body)) s
  have hregion : r₁.history.origins.regions frame = some (.block body) :=
    Origins.after_regions (Nat.le_refl _)
  have h₁ : Run.Kept r r₁ := h.remembering around (.frame (.block body)) s
  have h₂ : Run.Kept r₁ (r₁.withStore s) := by
    refine h₁.sound.newFrame (some r.machine.current) fun d hd => ?_
    rw [show r₁.machine.store.frames.size = frame from rfl, hregion] at hd
    cases hd
  refine ⟨frame, { r.machine with store := s }, rfl, h₁.trans h₂, ?_⟩
  refine (hsurrounds.grows (h₁.trans h₂).grows).cons ?_ (Store.newFrame_parent?_new _ _) hregion
    fun name hname => ?_
  · exact Nat.lt_of_lt_of_eq (Nat.lt_succ_self _) (Store.newFrame_size _ _).symm
  · simp at hname

/-! ## Parameters -/

/-- A store after names were bound in a frame. -/
def bindAll (frame : FrameId) (mutable : Bool) (pairs : List (Token × Value)) (s : Store) : Store :=
  pairs.foldl (fun s (name, value) => s.define frame name.lexeme value mutable) s

theorem bindAll_parent? (frame : FrameId) (mutable : Bool) (pairs : List (Token × Value))
    (s : Store) (other : FrameId) :
    (bindAll frame mutable pairs s).parent? other = s.parent? other := by
  induction pairs generalizing s with
  | nil => rfl
  | cons pair pairs ih =>
    refine (ih _).trans ?_
    simp

theorem bindAll_size (frame : FrameId) (mutable : Bool) (pairs : List (Token × Value))
    (s : Store) : (bindAll frame mutable pairs s).frames.size = s.frames.size := by
  induction pairs generalizing s with
  | nil => rfl
  | cons pair pairs ih =>
    refine (ih _).trans ?_
    simp

theorem bindAll_grows (frame : FrameId) (mutable : Bool) (pairs : List (Token × Value))
    (s : Store) : s.Grows (bindAll frame mutable pairs s) := by
  induction pairs generalizing s with
  | nil => exact .refl s
  | cons pair pairs ih => exact (Store.define_grows s frame _ _ mutable).trans (ih _)

theorem bindAll_binds {frame : FrameId} (mutable : Bool) {pairs : List (Token × Value)} {s : Store}
    (hframe : frame < s.frames.size) {pair : Token × Value} (hpair : pair ∈ pairs) :
    (bindAll frame mutable pairs s).Binds frame pair.1.lexeme := by
  induction pairs generalizing s with
  | nil => cases hpair
  | cons first pairs ih =>
    rcases List.mem_cons.mp hpair with rfl | hpair
    · exact (bindAll_grows frame mutable pairs _).binds _ _
        (Store.define_binds s frame _ _ mutable hframe)
    · exact @ih (s.define frame first.1.lexeme first.2 mutable) (by simpa using hframe) hpair

/-- Names are bound to known values. -/
theorem bindAll_kept (h : r.Sound) (frame : FrameId) (mutable : Bool)
    {pairs : List (Token × Value)}
    (hpairs : ∀ pair ∈ pairs, pair.1.Plain ∧ r.KnowsValue pair.2) :
    Run.Kept r (r.withStore (bindAll frame mutable pairs r.machine.store)) := by
  induction pairs generalizing r with
  | nil => exact .refl h
  | cons pair pairs ih =>
    obtain ⟨hplain, hvalue⟩ := hpairs pair List.mem_cons_self
    have hgrows := Run.grows_withStore (r := r)
      (Store.define_grows r.machine.store frame pair.1.lexeme pair.2 mutable)
    have hfirst := h.define (hvalue.grows hgrows) (.inl hplain.ne_super)
    refine hfirst.trans (@ih (r.withStore _) hfirst.sound fun pair' hpair' => ?_)
    obtain ⟨hplain', hvalue'⟩ := hpairs pair' (List.mem_cons_of_mem _ hpair')
    exact ⟨hplain', hvalue'.grows hgrows⟩

/-! ## Calls -/

/-- What is visited of a sound run fits. -/
theorem Run.Visited.tidy {w : Walk} {ps : List Place} {part : Part} (hv : r.Visited w ps part)
    (h : r.Sound) : part.Tidy := by
  obtain ⟨root, hroot, hvisits⟩ := hv
  exact (hvisits.fits (h.accepted root hroot)).tidy

/-- A frame is made for a call with as many arguments as the function has parameters. -/
theorem callFrame_kept (h : r.Sound) {f : Function} (hf : r.KnowsFunction f)
    {arguments : List Value} (hknown : ∀ v ∈ arguments, r.KnowsValue v)
    (hlength : arguments.length = f.arity) :
    ∃ frame m, callFrame f arguments r.machine = .ok frame m ∧
      Run.Kept r (r.stepTo around (.frame (.call f.declaration)) m) ∧
      ∃ (w : Walk) (ps : List Place) (role : FunctionContext),
        (r.stepTo around (.frame (.call f.declaration)) m).Visited w ps
          (.function f.declaration role) ∧
        Surrounds (r.stepTo around (.frame (.call f.declaration)) m) frame
          (frame ::
            (r.stepTo around (.frame (.call f.declaration)) m).history.origins.homes f.serial)
          (f.declaration.bodyStart role w).scopes (⟨.call f.declaration, none⟩ :: ps) := by
  let frame := r.machine.store.frames.size
  let pairs := f.declaration.parameters.zip arguments
  let s₁ : Store := (r.machine.store.newFrame (some f.closure)).2
  let s : Store := bindAll frame (f.kind != .setter) pairs s₁
  let r₁ := r.remembering around (.frame (.call f.declaration)) s
  have hregion : r₁.history.origins.regions frame = some (.call f.declaration) :=
    Origins.after_regions (Nat.le_refl _)
  have hlt : frame < s₁.frames.size := by
    rw [Store.newFrame_size]
    exact Nat.lt_succ_self _
  have h₁ : Run.Kept r r₁ := h.remembering around (.frame (.call f.declaration)) s
  have h₂ : Run.Kept r₁ (r₁.withStore s₁) := by
    refine h₁.sound.newFrame (some f.closure) fun d hd => ?_
    rw [show r₁.machine.store.frames.size = frame from rfl, hregion] at hd
    cases hd
  obtain ⟨w, ps, role, hvisited, hsurrounds⟩ := hf.place
  have hplain := FunctionDecl.Tidy.plain (hvisited.tidy h)
  have h₃ : Run.Kept (r₁.withStore s₁) (r₁.withStore s) := by
    refine bindAll_kept h₂.sound frame (f.kind != .setter) fun pair hpair => ?_
    obtain ⟨hname, hvalue⟩ := List.of_mem_zip hpair
    exact ⟨hplain _ hname, (hknown _ hvalue).grows (h₁.trans h₂).grows⟩
  have hkept : Run.Kept r (r₁.withStore s) := (h₁.trans h₂).trans h₃
  refine ⟨frame, { r.machine with store := s }, rfl, hkept, w, ps, role,
    hvisited.grows hkept.grows, ?_⟩
  have hhome : r₁.history.origins.homes f.serial = r.history.origins.homes f.serial :=
    h₁.grows.homes _ hf.serial
  show Surrounds (r₁.withStore s) frame (frame :: r₁.history.origins.homes f.serial) _ _
  rw [hhome]
  have hframe : Surrounds (r₁.withStore s) frame (frame :: r.history.origins.homes f.serial)
      (∅ :: w.scopes) (⟨.call f.declaration, none⟩ :: ps) := by
    refine (hsurrounds.grows hkept.grows).cons ?_ ?_ hregion fun name hname => ?_
    · show frame < s.frames.size
      rw [bindAll_size]
      exact hlt
    · show s.parent? frame = _
      rw [bindAll_parent?]
      exact Store.newFrame_parent?_new _ _
    · simp at hname
  refine ⟨hframe.chain, hframe.aligned.adds (f.declaration.bodyStart_adds role w) ?_⟩
  intro name hname first hfirst
  cases hfirst
  -- every parameter has an argument
  obtain ⟨i, hi, rfl⟩ := List.getElem_of_mem hname
  have hi' : i < arguments.length := by
    rw [hlength]
    exact hi
  have hpair : (f.declaration.parameters[i], arguments[i]) ∈ pairs := by
    rw [List.mem_iff_getElem]
    exact ⟨i, by rw [List.length_zip]; omega, List.getElem_zip⟩
  exact bindAll_binds _ hlt hpair

end Lox.Eval
