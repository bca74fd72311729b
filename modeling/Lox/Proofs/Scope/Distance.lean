import Lox.Proofs.Scope.Places

/-!
# Distances

The table has for every reference of an accepted tree the distance at which the walk finds its name
(`Visits.known`). The scope at that distance holds the name, and for `this` and `super` there always
is one, made for it. What else is accepted stands where the rules of scope allow it.
-/

namespace Lox

open Walk

/-- The site of a reference and the token that it refers by. -/
def Expr.reference? : Expr → Option (Site × Token)
  | .variable site name | .assign site name _ => some (site, name)
  | .receiver site keyword | .inherited site keyword _ => some (site, keyword)
  | _ => none

/-! ## Distances in a list of scopes -/

theorem Walk.distance?_some {w : Walk} {name : String} {d : Nat} (h : w.distance? name = some d) :
    ∃ scope, w.scopes[d]? = some scope ∧ scope.contains name = true := by
  obtain ⟨hd, hcontains, _⟩ := List.findIdx?_eq_some_iff_getElem.mp h
  exact ⟨w.scopes[d], List.getElem?_eq_getElem hd, hcontains⟩

theorem Walk.distance?_of_mem {w : Walk} {name : String}
    (h : ∃ scope ∈ w.scopes, scope.contains name = true) : ∃ d, w.distance? name = some d := by
  obtain ⟨scope, hscope, hcontains⟩ := h
  cases hd : w.distance? name with
  | some d => exact ⟨d, rfl⟩
  | none => exact absurd hcontains (by simp [List.findIdx?_eq_none_iff.mp hd scope hscope])

/-- What the table has for a reference that is bound where no error and no earlier distance of the
reference is. -/
theorem Table.eq_distance? {T : Table} {w w' : Walk} {site : Site} {name : Token}
    (hknown : T[site]? = (w'.bind site name).table[site]?) (hfresh : w'.table[site]? = none)
    (hscopes : w'.scopes = w.scopes) : T[site]? = w.distance? name.lexeme := by
  rw [hknown]
  unfold Walk.bind Walk.distance?
  rw [hscopes]
  split
  next d hd =>
    rw [hd]
    exact Std.TreeMap.getElem?_insert_self
  next hd => rw [hd, hfresh]

/-! ## References -/

variable {T : Table} {root : Part} {w : Walk} {ps : List Place}

/-- The table has for a reference of an accepted tree the distance that the walk finds. -/
theorem Visits.known (hroot : Accepted T root) {e : Expr} {site : Site} {name : Token}
    (h : Visits root w ps (.expression e)) (he : e.reference? = some (site, name)) :
    T[site]? = w.distance? name.lexeme := by
  have hfits := h.fits hroot
  -- each reference is entered in the table once, after the walk over what stands inside it, with
  -- the scopes as they were
  cases e with
  | «variable» site' name' =>
    cases he
    have hw := reportIf_through (w.isPending name) .ownInitializer name w
    refine Table.eq_distance? (hfits.known site (by simp [Part.references, Expr.references])) ?_
      hw.scopes
    rw [hw.table site (by simp)]
    exact hfits.fresh site (by simp [Part.references, Expr.references])
  | assign site' name' value =>
    cases he
    have hw := value.walk_through w
    -- sites differ, so the value of the assignment enters nothing for this one
    have hsite : site ∉ value.references.map Reference.site := by
      have hnodup := hfits.nodup
      simp only [Part.references, Expr.references, List.map_cons, List.nodup_cons] at hnodup
      exact hnodup.1
    refine Table.eq_distance? (hfits.known site (by simp [Part.references, Expr.references])) ?_
      hw.scopes
    rw [hw.table site hsite]
    exact hfits.fresh site (by simp [Part.references, Expr.references])
  | receiver site' keyword =>
    cases he
    have hw := checkReceiver_through name w
    refine Table.eq_distance? (hfits.known site (by simp [Part.references, Expr.references])) ?_
      hw.scopes
    rw [hw.table site (by simp)]
    exact hfits.fresh site (by simp [Part.references, Expr.references])
  | inherited site' keyword method =>
    cases he
    have hw := checkInherited_through name w
    refine Table.eq_distance? (hfits.known site (by simp [Part.references, Expr.references])) ?_
      hw.scopes
    rw [hw.table site (by simp)]
    exact hfits.fresh site (by simp [Part.references, Expr.references])
  | _ => cases he

/-- A place that is at a distance where the name was found. -/
theorem Placed.place {part : Part} (h : Placed part w ps) {name : String} {d : Nat}
    (hd : w.distance? name = some d) :
    ∃ scope place, w.scopes[d]? = some scope ∧ ps[d]? = some place ∧
      scope.contains name = true ∧ Place.Matches scope place := by
  obtain ⟨scope, hscope, hcontains⟩ := distance?_some hd
  obtain ⟨hlt, rfl⟩ := List.getElem?_eq_some_iff.mp hscope
  have hlt' : d < ps.length := h.places.length_eq ▸ hlt
  exact ⟨_, ps[d], hscope, List.getElem?_eq_getElem hlt', hcontains,
    List.forall₂_iff_get.mp h.places |>.2 d hlt hlt'⟩

/-- A scope for which there is a place. -/
theorem Placed.scope {part : Part} (h : Placed part w ps) {p : Place} (hp : p ∈ ps) :
    ∃ scope ∈ w.scopes, Place.Matches scope p := by
  obtain ⟨i, hi, rfl⟩ := List.getElem_of_mem hp
  have hi' : i < w.scopes.length := h.places.length_eq ▸ hi
  exact ⟨w.scopes[i], List.getElem_mem hi', List.forall₂_iff_get.mp h.places |>.2 i hi' hi⟩

/-- A name that only the scopes of some regions hold is found in one of them, if there is any. -/
theorem Placed.found {part : Part} (h : Placed part w ps) {name : String} {P : Region → Prop}
    (hholds : ∀ {scope : Scope} {place : Place}, Place.Matches scope place →
      (scope.contains name = true ↔ P place.region))
    {p : Place} (hp : p ∈ ps) (hregion : P p.region) :
    ∃ d place, w.distance? name = some d ∧ ps[d]? = some place ∧ P place.region := by
  obtain ⟨scope, hscope, hmatches⟩ := h.scope hp
  obtain ⟨d, hd⟩ := distance?_of_mem ⟨scope, hscope, (hholds hmatches).mpr hregion⟩
  obtain ⟨_, place, _, hplace, hcontains, hmatches'⟩ := h.place hd
  exact ⟨d, place, hd, hplace, (hholds hmatches').mp hcontains⟩

/-- Walking a step that may report an error reports none if none is reported in the end. -/
theorem Walk.Grows.errors_eq_nil {rs : List Reference} {w w' : Walk} (h : Grows rs w w')
    (hw' : w'.errors = []) : w.errors = [] :=
  List.prefix_nil.mp (hw' ▸ h.errors)

theorem Walk.report_errors_ne_nil (cause : ScopeCause) (token : Token) (w : Walk) :
    (w.report cause token).errors ≠ [] := by
  simp [report]

theorem Walk.reportIf_errors_ne_nil {condition : Bool} (h : condition = true) (cause : ScopeCause)
    (token : Token) (w : Walk) : (reportIf condition cause token w).errors ≠ [] := by
  rw [reportIf, if_pos h]
  exact report_errors_ne_nil cause token w

/-- `this` stands inside a class. -/
theorem Visits.receiver_inClass (hroot : Accepted T root) {site : Site} {keyword : Token}
    (h : Visits root w ps (.expression (.receiver site keyword))) : w.context.cls ≠ .none := by
  intro hnone
  have herrors :=
    (bind_through .receiver site keyword _).toGrows.errors_eq_nil (h.fits hroot).errors
  rw [checkReceiver, if_pos hnone] at herrors
  exact report_errors_ne_nil _ _ _ herrors

/-- `this` is found in a scope that was made for it. -/
theorem Visits.receiver_found (hroot : Accepted T root) {site : Site} {keyword : Token}
    (h : Visits root w ps (.expression (.receiver site keyword))) :
    ∃ d place m, w.distance? keyword.lexeme = some d ∧ ps[d]? = some place ∧
      place.region = .receiver m := by
  have hplaced := h.placed hroot
  have hkeyword : keyword.lexeme = "this" := (h.fits hroot).tidy
  obtain ⟨p, hp, hregion⟩ := hplaced.receiver rfl (h.receiver_inClass hroot)
  obtain ⟨d, place, hd, hplace, m, hm⟩ :=
    hplaced.found (P := fun region => ∃ m, region = .receiver m) (·.this) hp hregion
  exact ⟨d, place, m, hkeyword ▸ hd, hplace, hm⟩

/-- `super` stands inside a class with a superclass. -/
theorem Visits.inherited_derived (hroot : Accepted T root) {site : Site} {keyword method : Token}
    (h : Visits root w ps (.expression (.inherited site keyword method))) :
    w.context.cls = .derived := by
  have herrors :=
    (bind_through .inherited site keyword _).toGrows.errors_eq_nil (h.fits hroot).errors
  unfold checkInherited at herrors
  split at herrors
  next => exact absurd herrors (report_errors_ne_nil _ _ _)
  next => exact absurd herrors (report_errors_ne_nil _ _ _)
  next hderived => exact hderived

/-- `super` is found in a scope that was made for it. -/
theorem Visits.inherited_found (hroot : Accepted T root) {site : Site} {keyword method : Token}
    (h : Visits root w ps (.expression (.inherited site keyword method))) :
    ∃ d place c, w.distance? keyword.lexeme = some d ∧ ps[d]? = some place ∧
      place.region = .superclass c := by
  have hplaced := h.placed hroot
  have hkeyword : keyword.lexeme = "super" := (h.fits hroot).tidy
  obtain ⟨p, hp, hregion⟩ := hplaced.superclass rfl (h.inherited_derived hroot)
  obtain ⟨d, place, hd, hplace, c, hc⟩ :=
    hplaced.found (P := fun region => ∃ c, region = .superclass c) (·.super) hp hregion
  exact ⟨d, place, c, hkeyword ▸ hd, hplace, hc⟩

/-! ## Statements that leave a loop or a function -/

theorem Visits.break_inLoop (hroot : Accepted T root) {keyword : Token}
    (h : Visits root w ps (.statement (.breakLoop keyword))) : w.context.loopDepth ≠ 0 :=
  fun hzero => reportIf_errors_ne_nil (by simp [hzero]) _ _ _ (h.fits hroot).errors

theorem Visits.continue_inLoop (hroot : Accepted T root) {keyword : Token}
    (h : Visits root w ps (.statement (.continueLoop keyword))) : w.context.loopDepth ≠ 0 :=
  fun hzero => reportIf_errors_ne_nil (by simp [hzero]) _ _ _ (h.fits hroot).errors

theorem Visits.return_inFunction (hroot : Accepted T root) {keyword : Token} {value : Option Expr}
    (h : Visits root w ps (.statement (.returnValue keyword value))) :
    w.context.function ≠ .none := by
  intro hnone
  have herrors := (Expr.walkOption_through value _).toGrows.errors_eq_nil (h.fits hroot).errors
  have hfirst := (reportIf_through _ _ keyword _).toGrows.errors_eq_nil herrors
  exact reportIf_errors_ne_nil (by simp [hnone]) _ _ _ hfirst

end Lox
