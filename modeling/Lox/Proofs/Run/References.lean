import Lox.Proofs.Run.Standing

/-!
# References in use

Where a task that is about a reference stands, the moment at which the reference is used agrees with
resolving (`Standing.agrees`), and what is found there is known.
-/

namespace Lox

/-- No declaration in a scope introduces `this`. -/
theorem Place.Matches.introduces_ne_this {scope : Scope} {place : Place}
    (h : Place.Matches scope place) : ¬Eval.Introduces place "this" := by
  intro ⟨s, declared, hpending, hs, hname⟩
  exact (h.pending s hpending declared (by rw [hs]; exact List.mem_singleton_self _)).ne_this hname

namespace Eval

variable {spot : Spot} {around : Surroundings} {r : Run}

/-! ## Finding frames -/

/-- The frame at the distance at which the walk finds a name. -/
theorem Standing.frame_at {part : Part} (h : r.Sound) (hs : Standing spot around.frames r part)
    {name : String} {d : Nat} (hd : spot.walk.distance? name = some d) :
    ∃ frame scope place, r.machine.store.ancestor? r.machine.current d = some frame ∧
      around.frames[d]? = some frame ∧ frame < r.machine.store.frames.size ∧
      spot.places[d]? = some place ∧ Place.Matches scope place ∧
      r.history.origins.regions frame = some place.region ∧
      (r.machine.store.Binds frame name ∨ Introduces place name) := by
  obtain ⟨root, hroot, hv⟩ := hs.visited
  obtain ⟨scope, place, hscope, hplace, hcontains, hmatches⟩ :=
    (hv.placed (h.accepted root hroot)).place hd
  obtain ⟨frame, hframe, hlt, hregion, hbinds⟩ := hs.surrounds.aligned.at hscope hplace
  refine ⟨frame, scope, place, ?_, hframe, hlt, hplace, hmatches, hregion, hbinds name hcontains⟩
  rw [hs.surrounds.chain.ancestor? d, List.getElem?_append_left, hframe]
  exact (List.getElem?_eq_some_iff.mp hframe).1

/-- A name that the frame at a distance binds is not found undefined by that distance. -/
theorem lookUp_ne_none {m : Machine} {site : Site} {name : String} {d : Nat} {frame : FrameId}
    (htable : m.table[site]? = some d) (hframe : m.store.ancestor? m.current d = some frame)
    (hbinds : m.store.Binds frame name) :
    m.lookUp site name ≠ none ∧ m.target site name ≠ .error .undefined := by
  obtain ⟨b, hb⟩ := hbinds
  constructor
  · rw [Machine.lookUp, htable]
    simp [Store.getAt?, hframe, hb]
  · rw [Machine.target, htable]
    simp only [Store.targetAt, hframe, Store.targetIn, hb]
    cases b.mutable <;> simp

/-! ## Agreement -/

/-- The moment at which a reference is used agrees with resolving. -/
theorem Standing.agrees {e : Expr} {site : Site} {name : Token} (h : r.Sound)
    (hs : Standing spot around.frames r (.expression e)) (he : e.reference? = some (site, name))
    (what : Occurrence) :
    ∃ root, Agreement ⟨around, r.history.origins, r.machine, what⟩ e site name root spot.walk
      spot.places := by
  obtain ⟨root, hroot, hv⟩ := hs.visited
  have hdistance : r.machine.table[site]? = spot.walk.distance? name.lexeme :=
    hv.known (h.accepted root hroot) he
  have hfound : ∀ d, r.machine.table[site]? = some d → ∃ frame place,
      r.machine.store.ancestor? r.machine.current d = some frame ∧
        around.frames[d]? = some frame ∧ spot.places[d]? = some place ∧
        r.history.origins.regions frame = some place.region ∧
        (r.machine.store.Binds frame name.lexeme ∨ Introduces place name.lexeme) := by
    intro d hd
    rw [hdistance] at hd
    obtain ⟨frame, _, place, hancestor, hframe, _, hplace, _, hregion, hbinds⟩ := hs.frame_at h hd
    exact ⟨frame, place, hancestor, hframe, hplace, hregion, hbinds⟩
  refine ⟨root, he, hroot, hv, hs.surrounds.aligned.length_eq, hs.surrounds.chain.ancestor?,
    hs.surrounds.aligned.regions, hdistance, hfound, ?_, ?_, ?_⟩
  -- an undefined variable: the frame has no such name yet, and the scope introduces it
  · intro d hd hundefined
    obtain ⟨frame, place, hancestor, _, hplace, _, hbinds⟩ := hfound d hd
    rcases hbinds with hbinds | hintroduces
    · obtain ⟨hlookUp, htarget⟩ := lookUp_ne_none hd hancestor hbinds
      exact (hundefined.elim hlookUp htarget).elim
    · exact ⟨place, hplace, hintroduces⟩
  -- `this`
  · intro keyword heq
    subst heq
    cases he
    have hkeyword : name.lexeme = "this" := hs.visited.tidy h
    obtain ⟨d, _, _, hd, _, _⟩ := hv.receiver_found (h.accepted root hroot)
    obtain ⟨frame, _, _, hancestor, _, _, _, hmatches, _, hbinds⟩ := hs.frame_at h hd
    rw [hkeyword] at hbinds
    refine ⟨d, frame, hdistance.trans hd, hancestor, ?_⟩
    show r.machine.store.Binds frame name.lexeme
    rw [hkeyword]
    exact hbinds.resolve_right hmatches.introduces_ne_this
  -- `super`
  · intro keyword method heq
    subst heq
    cases he
    have hkeyword : name.lexeme = "super" := hs.visited.tidy h
    obtain ⟨d, place, c, hd, hplace, hregion⟩ := hv.inherited_found (h.accepted root hroot)
    obtain ⟨frame, _, place', hancestor, _, hlt, hplace', _, hregion', _⟩ := hs.frame_at h hd
    obtain rfl : place = place' := Option.some.inj (hplace.symm.trans hplace')
    obtain ⟨c', mutable, hc'⟩ := h.superclass frame c hlt (hregion'.trans (by rw [hregion]))
    refine ⟨d, c', hdistance.trans hd, ?_⟩
    show r.machine.store.getAt? r.machine.current d name.lexeme = _
    rw [hkeyword, Store.getAt?, hancestor]
    simp [hc']

/-- A step that uses a reference agrees with resolving. -/
theorem Standing.mark_agrees {e : Expr} {site : Site} {name : Token} (h : r.Sound)
    (hs : Standing spot around.frames r (.expression e)) (he : e.reference? = some (site, name))
    (what : Occurrence) :
    (Mark.refers e).Agrees ⟨around, r.history.origins, r.machine, what⟩ := by
  have htidy : e.Tidy := hs.visited.tidy h
  refine ⟨fun e' he' => ?_, fun _ hname => (nomatch hname), fun name' hname => ?_⟩
  · cases he'
    obtain ⟨root, hagrees⟩ := hs.agrees h he what
    exact ⟨site, name, root, _, _, hagrees⟩
  · cases e with
    | assign site' assigned value =>
      cases hname
      exact htidy.1
    | «variable» site' read =>
      cases hname
      exact htidy
    | _ => cases hname

/-! ## What is found -/

/-- The value of a reference is bound somewhere. -/
theorem lookUp_binding {m : Machine} {site : Site} {name : String} {v : Value}
    (hv : m.lookUp site name = some v) : ∃ f b, m.store.binding? f name = some b ∧ b.value = v := by
  unfold Machine.lookUp at hv
  split at hv
  next => exact Store.getAt?_binding hv
  next => exact Store.get?_binding hv

theorem Run.Sound.getAt?_known (h : r.Sound) {frame : FrameId} {d : Nat} {name : String}
    {v : Value} (hv : r.machine.store.getAt? frame d name = some v) : r.KnowsValue v := by
  obtain ⟨f, b, hb, rfl⟩ := Store.getAt?_binding hv
  exact h.bindings f name b hb

/-- The value of a reference is known. -/
theorem Run.Sound.lookUp_known (h : r.Sound) {site : Site} {name : String} {v : Value}
    (hv : r.machine.lookUp site name = some v) : r.KnowsValue v := by
  obtain ⟨f, b, hb, rfl⟩ := lookUp_binding hv
  exact h.bindings f name b hb

/-- A receiver that may be missing is known. -/
theorem Run.Sound.receiver_known (h : r.Sound) (frame : FrameId) (d : Nat) :
    r.KnowsValue ((r.machine.store.getAt? frame d "this").getD .nil) := by
  cases hv : r.machine.store.getAt? frame d "this" with
  | none => trivial
  | some v => exact h.getAt?_known hv

end Eval

end Lox
