import Lox.Proofs.Run.Steps

/-!
# Functions, methods, classes and calls

Each step that makes a function or a frame makes one that the run then knows: the history after the
step says that it was made for the place at which the walk came by it.
-/

namespace Lox.Eval

open Exec

/-! ## Scopes that get names -/

section Aligned

variable {r : Run} {frames : List FrameId} {ss ss' : List Scope} {ps : List Place}

/-- The innermost scope gets names that its frame binds. -/
theorem Aligned.adds {names : List Token} (h : Aligned r frames ss ps)
    (hadds : Scope.Adds names ss ss')
    (hbinds : ∀ name ∈ names, ∀ frame ∈ frames.head?, r.machine.store.Binds frame name.lexeme) :
    Aligned r frames ss' ps := by
  cases hadds with
  | global => exact h
  | inner hs =>
    cases h with
    | cons hlt hregion hb hrest =>
      refine .cons hlt hregion (fun n hn => ?_) hrest
      rcases (hs n).mp hn with hold | hnew
      · exact hb n hold
      · obtain ⟨name, hname, rfl⟩ := List.mem_map.mp hnew
        exact .inl (hbinds name hname _ rfl)

/-- The innermost scope gets the name that a declaration is about to introduce. -/
theorem Aligned.introduce {s : Stmt} {name : Token} (h : Aligned r frames ss ps)
    (hadds : Scope.Adds [name] ss ss') (hs : s.declared? = some name)
    (hsettled : ∀ p ∈ ps.head?, p.pending = none) :
    Aligned r frames ss' (Place.introduce s ps) := by
  cases hadds with
  | global =>
    cases h
    exact .nil
  | inner hscope =>
    cases h with
    | cons hlt hregion hb hrest =>
      refine .cons hlt hregion (fun n hn => ?_) hrest
      rcases (hscope n).mp hn with hold | hnew
      · refine (hb n hold).imp_right fun hintro => ?_
        obtain ⟨s', _, hpending, _⟩ := hintro
        rw [hsettled _ rfl] at hpending
        cases hpending
      · exact .inr ⟨s, name, rfl, hs, (List.mem_singleton.mp hnew).symm⟩

theorem Aligned.length_eq (h : Aligned r frames ss ps) : frames.length = ss.length := by
  induction h with
  | nil => rfl
  | cons _ _ _ _ ih => simp [ih]

theorem Aligned.regions (h : Aligned r frames ss ps) :
    frames.map r.history.origins.regions = ps.map fun p => some p.region := by
  induction h with
  | nil => rfl
  | cons _ hregion _ _ ih => rw [List.map_cons, List.map_cons, hregion, ih]

/-- What holds at one distance. -/
theorem Aligned.at {d : Nat} {scope : Scope} {place : Place} (h : Aligned r frames ss ps)
    (hscope : ss[d]? = some scope) (hplace : ps[d]? = some place) :
    ∃ frame, frames[d]? = some frame ∧ frame < r.machine.store.frames.size ∧
      r.history.origins.regions frame = some place.region ∧
      ∀ name, scope.contains name = true →
        r.machine.store.Binds frame name ∨ Introduces place name := by
  induction h generalizing d with
  | nil => cases hscope
  | @cons frame scope' place' frames scopes ps hlt hregion hb hrest ih =>
    cases d with
    | zero =>
      cases hscope
      cases hplace
      exact ⟨frame, rfl, hlt, hregion, hb⟩
    | succ d => exact ih hscope hplace

/-- The frames begin with the innermost one. -/
theorem Surrounds.head_eq {frame : FrameId} (h : Surrounds r frame frames ss ps) :
    ∀ f ∈ frames.head?, f = frame := by
  intro f hf
  cases frames with
  | nil => cases hf
  | cons first rest =>
    cases hf
    exact Store.Chain.head_eq h.chain

/-- The frame of a new scope around the frames. -/
theorem Surrounds.cons {frame parent : FrameId} {scope : Scope} {place : Place}
    (h : Surrounds r parent frames ss ps) (hlt : frame < r.machine.store.frames.size)
    (hparent : r.machine.store.parent? frame = some parent)
    (hregion : r.history.origins.regions frame = some place.region)
    (hbinds : ∀ name, scope.contains name = true →
      r.machine.store.Binds frame name ∨ Introduces place name) :
    Surrounds r frame (frame :: frames) (scope :: ss) (place :: ps) :=
  ⟨.link hlt hparent h.chain, .cons hlt hregion hbinds h.aligned⟩

end Aligned

variable {r : Run} {around : Surroundings}

theorem newFrames_of_size_eq {s s' : Store} (h : s'.frames.size = s.frames.size) :
    newFrames s s' = [] := by
  rw [newFrames, if_neg (by rw [h]; exact Nat.lt_irrefl _)]

theorem newFrames_of_size_lt {s s' : Store} (h : s.frames.size < s'.frames.size) :
    newFrames s s' = [s.frames.size] :=
  if_pos h

/-- The frames around a function that a step makes. -/
theorem Origins.after_homes {o : Origins} {mark : Mark} {before s : Store} {serial : Nat}
    (h : before.nextSerial ≤ serial) :
    (o.after around mark before s).homes serial = newFrames before s ++ mark.home o around :=
  if_neg (Nat.not_lt.mpr h)

/-- What a frame that a step makes is for. -/
theorem Origins.after_regions {o : Origins} {mark : Mark} {before s : Store} {frame : FrameId}
    (h : before.frames.size ≤ frame) : (o.after around mark before s).regions frame = mark.region :=
  if_neg (Nat.not_lt.mpr h)

/-! ## Functions -/

/-- A function is made in the current frame. -/
theorem makeFunction_kept (h : r.Sound) {w : Walk} {ps : List Place} {d : FunctionDecl}
    {role : FunctionContext} (hvisited : r.Visited w ps (.function d role))
    (hsurrounds : Surrounds r r.machine.current around.frames w.scopes ps) :
    ∃ f m, makeFunction d r.machine = .ok f m ∧ Run.Kept r (r.stepTo around .function m) ∧
      (r.stepTo around .function m).KnowsFunction f := by
  let s : Store := { r.machine.store with nextSerial := r.machine.store.nextSerial + 1 }
  let r₁ := r.remembering around .function s
  have h₁ : Run.Kept r r₁ := h.remembering around .function s
  have h₂ : Run.Kept r₁ (r₁.withStore s) := h₁.sound.drawn (Nat.le_succ _)
  have hhome : r₁.history.origins.homes r.machine.store.nextSerial = around.frames := by
    have hsame : newFrames r.machine.store s = [] := newFrames_of_size_eq rfl
    refine (Origins.after_homes (Nat.le_refl _)).trans ?_
    rw [hsame]
    rfl
  refine ⟨⟨r.machine.store.nextSerial, d, r.machine.current, false, .method⟩,
    { r.machine with store := s }, rfl, h₁.trans h₂, ⟨Nat.lt_succ_self _, fun hk => nomatch hk⟩,
    w, ps, role, hvisited.grows (h₁.trans h₂).grows, ?_⟩
  show Surrounds (r₁.withStore s) _ (r₁.history.origins.homes r.machine.store.nextSerial) _ _
  rw [hhome]
  exact hsurrounds.grows (h₁.trans h₂).grows

/-- A function is made in the current frame and its name is bound there. -/
theorem declareFunction_kept (h : r.Sound) {w : Walk} {ps : List Place} {d : FunctionDecl}
    {name : Token} (hname : d.name = some name) (hplain : name.Plain)
    (hvisited : r.Visited ((w.declare name).define name) ps (.function d .function))
    (hsurrounds : Surrounds r r.machine.current around.frames w.scopes ps) :
    ∃ m, declareFunction d r.machine = .ok () m ∧
      Run.Kept r (r.stepTo around (.declares (.functionDecl d)) m) ∧
      m.store.Binds r.machine.current name.lexeme := by
  let f : Function := ⟨r.machine.store.nextSerial, d, r.machine.current, false, .method⟩
  let s : Store := { r.machine.store with nextSerial := r.machine.store.nextSerial + 1 }
  let s' : Store := s.define r.machine.current name.lexeme (.function f) false
  let r₁ := r.remembering around (.declares (.functionDecl d)) s'
  have h₁ : Run.Kept r r₁ := h.remembering around (.declares (.functionDecl d)) s'
  have h₂ : Run.Kept r₁ (r₁.withStore s) := h₁.sound.drawn (Nat.le_succ _)
  -- the function is defined in the frame that it closes over, so that it is known is shown of the
  -- store with its binding
  have hgrows : r.Grows ((r₁.withStore s).withStore s') :=
    (h₁.trans h₂).grows.trans (Run.grows_withStore (Store.define_grows ..))
  have hhome : r₁.history.origins.homes r.machine.store.nextSerial = around.frames := by
    have hsame : newFrames r.machine.store s' = [] :=
      newFrames_of_size_eq (Store.define_size s _ _ _ _)
    refine (Origins.after_homes (Nat.le_refl _)).trans ?_
    rw [hsame]
    rfl
  have hbinds : s'.Binds r.machine.current name.lexeme :=
    Store.define_binds s _ _ _ _ hsurrounds.chain.lt_size
  have hknown : ((r₁.withStore s).withStore s').KnowsValue (.function f) := by
    refine ⟨⟨Nat.lt_succ_self _, fun hk => nomatch hk⟩, _, ps, .function, hvisited.grows hgrows, ?_⟩
    show Surrounds _ _ (r₁.history.origins.homes r.machine.store.nextSerial) _ _
    rw [hhome]
    have hs := hsurrounds.grows hgrows
    refine ⟨hs.chain, hs.aligned.adds (Walk.defined_adds name w) fun t ht frame hframe => ?_⟩
    rw [List.mem_singleton.mp ht]
    rw [hsurrounds.head_eq frame hframe]
    exact hbinds
  have h₃ : Run.Kept (r₁.withStore s) ((r₁.withStore s).withStore s') :=
    h₂.sound.define hknown (.inl hplain.ne_super)
  refine ⟨{ r.machine with store := s' }, ?_, (h₁.trans h₂).trans h₃, hbinds⟩
  show EStateM.Result.ok () { r.machine with
    store := s.define r.machine.current ((d.name.map Token.lexeme).getD "")
      (.function f) false } = _
  rw [hname]
  rfl

/-- A member of a class is made a method of a receiver. -/
theorem bind_kept (h : r.Sound) {f : Function} (hf : r.KnowsMember f) {receiver : Value}
    (hreceiver : r.KnowsValue receiver) :
    ∃ f' m, Eval.bind f receiver r.machine = .ok f' m ∧
      Run.Kept r (r.stepTo around (.method f) m) ∧
      (r.stepTo around (.method f) m).KnowsFunction f' ∧ f'.declaration = f.declaration ∧
      f'.kind = f.kind := by
  let frame := r.machine.store.frames.size
  let s₁ : Store := (r.machine.store.newFrame (some f.closure)).2
  let s₂ : Store := s₁.define frame "this" receiver false
  let s : Store := { s₂ with nextSerial := s₂.nextSerial + 1 }
  let r₁ := r.remembering around (.method f) s
  have hsize : s.frames.size = r.machine.store.frames.size + 1 := by
    show s₂.frames.size = _
    rw [Store.define_size, Store.newFrame_size]
  have hregion : r₁.history.origins.regions frame = some (.receiver f.declaration) :=
    Origins.after_regions (Nat.le_refl _)
  have hhome : r₁.history.origins.homes r.machine.store.nextSerial =
      frame :: r.history.origins.homes f.serial := by
    have hnew : newFrames r.machine.store s = [frame] :=
      newFrames_of_size_lt (by omega)
    refine (Origins.after_homes (Nat.le_refl _)).trans ?_
    rw [hnew]
    rfl
  -- the origins are noted first, since what is known of the new frame is read from them
  have h₁ : Run.Kept r r₁ := h.remembering around (.method f) s
  have h₂ : Run.Kept r₁ (r₁.withStore s₁) := by
    refine h₁.sound.newFrame (some f.closure) fun d hd => ?_
    rw [show r₁.machine.store.frames.size = frame from rfl, hregion] at hd
    cases hd
  have h₃ : Run.Kept (r₁.withStore s₁) ((r₁.withStore s₁).withStore s₂) :=
    h₂.sound.define (hreceiver.grows ((h₁.trans h₂).grows.trans
      (Run.grows_withStore (Store.define_grows ..)))) (.inl (by decide))
  have h₄ : Run.Kept ((r₁.withStore s₁).withStore s₂) (r₁.withStore s) :=
    h₃.sound.drawn (Nat.le_succ _)
  have hkept : Run.Kept r (r₁.withStore s) := ((h₁.trans h₂).trans h₃).trans h₄
  obtain ⟨w, ps, role, hvisited, hsurrounds⟩ := hf.place
  refine ⟨⟨r.machine.store.nextSerial, f.declaration, frame, f.isInitializer, f.kind⟩,
    { r.machine with store := s }, rfl, hkept, ⟨⟨Nat.lt_succ_self _, hf.getter⟩, _, _, role,
      hvisited.grows hkept.grows, ?_⟩, rfl, rfl⟩
  show Surrounds (r₁.withStore s) frame (r₁.history.origins.homes r.machine.store.nextSerial) _ _
  rw [hhome]
  -- the new frame is the scope of the receiver, around it stands the closure of the member
  refine (hsurrounds.grows hkept.grows).cons (by show frame < s.frames.size; omega) ?_ hregion ?_
  · show s₂.parent? frame = _
    rw [Store.define_parent?]
    exact Store.newFrame_parent?_new _ _
  · intro name hname
    obtain rfl : "this" = name := by
      simpa [Std.TreeMap.contains_insert] using hname
    exact .inl (Store.define_binds s₁ frame "this" receiver false (by
      rw [Store.newFrame_size]
      exact Nat.lt_succ_self _))

end Lox.Eval
