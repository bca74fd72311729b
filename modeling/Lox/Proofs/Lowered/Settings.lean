import Lox.Proofs.Lowered.Trees
import Lox.Proofs.Scope.Addressing
import Lox.Proofs.Scope.Tidy

/-!
# Settings of loops written out

What lies around a part of the second program is what lies around the part in the first one, and
inside each loop that is written out one more scope, which declares nothing
(`Setting.Lowers`). So a name is found in the same scope, as much further out as there are such
scopes before it, and what keeps the rules of scope in the first program keeps them in the second.
-/

namespace Lox

/-! ## Distances -/

namespace Shape

theorem le_far (shape : Shape) (distance : Nat) : distance ≤ shape.far distance := by
  induction shape generalizing distance with
  | nil => exact Nat.le_refl _
  | cons shared outer ih =>
    cases shared with
    | false => exact Nat.le_succ_of_le (ih distance)
    | true =>
      cases distance with
      | zero => exact Nat.zero_le _
      | succ distance => exact Nat.succ_le_succ (ih distance)

theorem far_zero {shape : Shape} (h : shape.Shared) : shape.far 0 = 0 := by
  cases shape with
  | nil => rfl
  | cons shared outer =>
    cases shared with
    | false => exact absurd rfl h
    | true => rfl

/-- No scope that only the second program has lies just inside the one at the distance. -/
def Adjacent (shape : Shape) (distance : Nat) : Prop :=
  0 < distance ∧ shape.far (distance - 1) = shape.far distance - 1

variable {shape : Shape} {distance : Nat}

theorem Adjacent.outside (h : shape.Adjacent distance) :
    Adjacent (true :: shape) (distance + 1) := by
  obtain ⟨hpos, hfar⟩ := h
  obtain ⟨distance, rfl⟩ := Nat.exists_eq_succ_of_ne_zero (Nat.ne_of_gt hpos)
  refine ⟨Nat.succ_pos _, ?_⟩
  have hle := shape.le_far (distance + 1)
  show shape.far distance + 1 = shape.far (distance + 1) + 1 - 1
  have hfar : shape.far distance = shape.far (distance + 1) - 1 := hfar
  omega

theorem Adjacent.inside (h : shape.Adjacent distance) : Adjacent (false :: shape) distance := by
  obtain ⟨hpos, hfar⟩ := h
  refine ⟨hpos, ?_⟩
  have hle := shape.le_far distance
  show shape.far (distance - 1) + 1 = shape.far distance + 1 - 1
  omega

end Shape

/-! ## What declarations declare -/

mutual

/-- What the grammar lets stand in a branch or as the body of a loop declares nothing. -/
theorem Stmt.Tidy.declares_eq : ∀ {s : Stmt}, s.Tidy →
    s.declares = (s.declared?.map Token.lexeme).toList
  | .block _, _ | .breakLoop _, _ | .continueLoop _, _ | .empty, _ | .expression _, _
  | .input _ _, _ | .print _ _, _ | .returnValue _ _, _ => rfl
  | .classDecl _, _ | .functionDecl _, _ | .constant _ _, _ | .var _ _, _ => rfl
  | .conditional _ whenTrue whenFalse, ⟨_, htrue, hnone, hfalse⟩ => by
    rw [Stmt.declares, htrue.declares_eq, hnone, Stmt.TidyElse.declares_eq hfalse]
    rfl
  | .loop _ body _, ⟨_, hbody, hnone, _⟩ => by
    rw [Stmt.declares, hbody.declares_eq, hnone]
    rfl

theorem Stmt.TidyElse.declares_eq : ∀ {s : Option Stmt}, Stmt.TidyElse s →
    Stmt.declaresOption s = []
  | none, _ => rfl
  | some s, ⟨hs, hnone⟩ => by
    rw [Stmt.declaresOption, hs.declares_eq, hnone]
    rfl

end

theorem Stmt.Tidy.ne_super {s : Stmt} (h : s.Tidy) : "super" ∉ s.declares := by
  rw [h.declares_eq]
  intro hmem
  obtain ⟨name, hname, hsuper⟩ := Option.map_eq_some_iff.mp (Option.mem_toList.mp hmem)
  exact (h.plain name (Option.mem_toList.mpr hname)).ne_super hsuper

namespace Lowers

variable {k : Links} {shape : Shape}

theorem declares_forall {p p' : Piece} (h : Lowers k shape p p') :
    (∀ s s', p = .statement s → p' = .statement s' →
      s'.declares = s.declares ∧ (¬shape.Shared → s.declares = [])) ∧
    ∀ s s', p = .otherwise s → p' = .otherwise s' →
      Stmt.declaresOption s' = Stmt.declaresOption s ∧
        (¬shape.Shared → Stmt.declaresOption s = []) := by
  induction h with
  | classDecl hshared hname =>
    refine ⟨?_, nofun⟩
    rintro _ _ ⟨⟩ ⟨⟩
    exact ⟨congrArg (fun name => [name]) hname.lexeme, fun h => absurd hshared h⟩
  | functionDecl hshared hd =>
    refine ⟨?_, nofun⟩
    rintro _ _ ⟨⟩ ⟨⟩
    exact ⟨congrArg Option.toList hd.declaration.1, fun h => absurd hshared h⟩
  | constant hshared hname | var hshared hname =>
    refine ⟨?_, nofun⟩
    rintro _ _ ⟨⟩ ⟨⟩
    exact ⟨congrArg (fun name => [name]) hname.lexeme, fun h => absurd hshared h⟩
  | conditional _ _ _ _ ihtrue ihfalse =>
    refine ⟨?_, nofun⟩
    rintro _ _ ⟨⟩ ⟨⟩
    obtain ⟨htrue, hnone⟩ := ihtrue.1 _ _ rfl rfl
    obtain ⟨hfalse, hnone'⟩ := ihfalse.2 _ _ rfl rfl
    exact ⟨congrArg₂ _ htrue hfalse, fun h => by
      rw [Stmt.declares, hnone h, hnone' h, List.append_nil]⟩
  | loop _ _ _ _ ihbody _ =>
    refine ⟨?_, nofun⟩
    rintro _ _ ⟨⟩ ⟨⟩
    have hbody := ihbody.1 _ _ rfl rfl
    exact hbody
  -- the body of a loop stands in a scope of the second run only, so it declares nothing
  | rounds _ _ _ _ _ ihbody _ =>
    refine ⟨?_, nofun⟩
    rintro _ _ ⟨⟩ ⟨⟩
    have hnone := (ihbody.1 _ _ rfl rfl).2 fun h => h rfl
    exact ⟨hnone.symm, fun _ => hnone⟩
  | noOtherwise =>
    refine ⟨nofun, ?_⟩
    rintro _ _ ⟨⟩ ⟨⟩
    exact ⟨rfl, fun _ => rfl⟩
  | someOtherwise _ ih =>
    refine ⟨nofun, ?_⟩
    rintro _ _ ⟨⟩ ⟨⟩
    exact ih.1 _ _ rfl rfl
  | block | breakLoop | continueLoop | empty | expressionStatement | input | print | returnValue =>
    refine ⟨?_, nofun⟩
    rintro _ _ ⟨⟩ ⟨⟩
    exact ⟨rfl, fun _ => rfl⟩
  | _ => exact ⟨nofun, nofun⟩

/-- A statement declares the same names in both programs, and none in a scope that only the second
one has. -/
theorem declares {s s' : Stmt} (h : Lowers k shape (.statement s) (.statement s')) :
    s'.declares = s.declares ∧ (¬shape.Shared → s.declares = []) :=
  h.declares_forall.1 _ _ rfl rfl


end Lowers

/-! ## What lies around a part -/

/-- The setting of a part in the first program and the one in the second program. -/
inductive Setting.Lowers : Shape → Setting → Setting → Prop where
  | top : Setting.Lowers [] [] []
  | scope {shape : Shape} {s s' : Setting} (kind : ScopeKind) {names : List String}
      (hplain : "super" ∉ names) (h : Setting.Lowers shape s s') :
      Setting.Lowers (true :: shape) (.scope kind names :: s) (.scope kind names :: s')
  /-- Around a member of a class with a superclass. -/
  | derived {shape : Shape} {s s' : Setting} (inClassMethod : Bool) {names : List String}
      (hplain : "super" ∉ names) (h : Setting.Lowers shape s s') :
      Setting.Lowers (true :: true :: shape)
        (.scope (.receiver inClassMethod) names :: .scope .superclass ["super"] :: s)
        (.scope (.receiver inClassMethod) names :: .scope .superclass ["super"] :: s')
  /-- In a round of a loop that is written out. -/
  | round {shape : Shape} {s s' : Setting} (h : Setting.Lowers shape s s') :
      Setting.Lowers (false :: shape) s (.scope .block [] :: s')
  | initializer {shape : Shape} {s s' : Setting} (name : String) (hshared : shape.Shared)
      (h : Setting.Lowers shape s s') :
      Setting.Lowers shape (.initializer name :: s) (.initializer name :: s')
  | cls {shape : Shape} {s s' : Setting} (derived : Bool) (h : Setting.Lowers shape s s') :
      Setting.Lowers shape (.cls derived :: s) (.cls derived :: s')
  | loop {shape : Shape} {s s' : Setting} (h : Setting.Lowers shape s s') :
      Setting.Lowers shape (.loop :: s) (.loop :: s')
  /-- An increment is in its loop only once it is written out. -/
  | again {shape : Shape} {s s' : Setting} (h : Setting.Lowers shape s s') :
      Setting.Lowers shape s (.loop :: s')

/-- The contexts are the same, but for loops of the second one. -/
structure Context.Lowers (c c' : Context) : Prop where
  function : c'.function = c.function
  cls : c'.cls = c.cls
  inClassMethod : c'.inClassMethod = c.inClassMethod
  loopDepth : c.loopDepth ≤ c'.loopDepth

theorem Context.Lowers.inside {c c' : Context} (h : c.Lowers c') (e : Enclosure) :
    (e.inside c).Lowers (e.inside c') := by
  obtain ⟨hfunction, hcls, hmethod, hdepth⟩ := h
  cases e with
  | scope kind names =>
    cases kind with
    | block | superclass => exact ⟨hfunction, hcls, hmethod, hdepth⟩
    | body role => exact ⟨rfl, hcls, hmethod, Nat.le_refl _⟩
    | receiver inClassMethod =>
      exact ⟨hfunction, hcls, congrArg (inClassMethod || ·) hmethod, hdepth⟩
  | loop => exact ⟨hfunction, hcls, hmethod, Nat.succ_le_succ hdepth⟩
  | cls derived => exact ⟨hfunction, rfl, rfl, hdepth⟩
  | initializer name => exact ⟨hfunction, hcls, hmethod, hdepth⟩

namespace Setting.Lowers

variable {shape : Shape} {s s' : Setting} (h : Setting.Lowers shape s s')

include h

theorem context : s.context.Lowers s'.context := by
  induction h with
  | top => exact ⟨rfl, rfl, rfl, Nat.le_refl _⟩
  | scope kind _ _ ih =>
    rw [context_cons, context_cons]
    exact ih.inside _
  | derived inClassMethod _ _ ih =>
    rw [context_cons, context_cons, context_cons, context_cons]
    exact (ih.inside _).inside _
  | round _ ih =>
    rw [context_cons]
    exact ih
  | initializer | cls | loop =>
    rw [context_cons, context_cons]
    exact Context.Lowers.inside ‹_› _
  | again _ ih =>
    rw [context_cons]
    exact ⟨ih.function, ih.cls, ih.inClassMethod, Nat.le_succ_of_le ih.loopDepth⟩

/-- Declarations in a scope of both programs. -/
theorem declaring {names : List String} (hplain : "super" ∉ names)
    (hshared : ¬shape.Shared → names = []) :
    Setting.Lowers shape (s.declaring names) (s'.declaring names) := by
  have happend {earlier : List String} (hearlier : "super" ∉ earlier) :
      "super" ∉ earlier ++ names := by
    rw [List.mem_append, not_or]
    exact ⟨hearlier, hplain⟩
  induction h with
  | top => exact .top
  | scope kind hearlier h => exact .scope kind (happend hearlier) h
  | derived inClassMethod hearlier h => exact .derived inClassMethod (happend hearlier) h
  | round h =>
    obtain rfl := hshared fun h => h rfl
    rw [declaring_nil, declaring_nil]
    exact .round h
  | initializer name hshape _ ih => exact .initializer name hshape (ih hshared)
  | cls derived _ ih => exact .cls derived (ih hshared)
  | loop _ ih => exact .loop (ih hshared)
  | again _ ih => exact .again (ih hshared)

/-- A name is found in the same scope. -/
theorem distance?_eq (name : String) : s'.distance? name = (s.distance? name).map shape.far := by
  have hcons {names : List String} {kind : ScopeKind} {shape : Shape} {s s' : Setting}
      (ih : s'.distance? name = (s.distance? name).map shape.far) :
      Setting.distance? name (.scope kind names :: s') =
        (Setting.distance? name (.scope kind names :: s)).map (Shape.far (true :: shape)) := by
    show List.findIdx? _ (names :: s'.scopes) = (List.findIdx? _ (names :: s.scopes)).map _
    rw [List.findIdx?_cons, List.findIdx?_cons]
    split
    next => rfl
    next =>
      show (s'.distance? name).map _ = ((s.distance? name).map _).map _
      rw [ih, Option.map_map, Option.map_map]
      rfl
  induction h with
  | top => rfl
  | scope kind _ _ ih => exact hcons ih
  | derived inClassMethod _ _ ih => exact hcons (hcons ih)
  | round _ ih =>
    show List.findIdx? _ ([] :: _) = _
    rw [List.findIdx?_cons, if_neg (by simp)]
    show (Setting.distance? name _).map _ = _
    rw [ih, Option.map_map]
    rfl
  | initializer | cls | loop | again => assumption

/-- The scope of a member lies just inside the one of the superclass. -/
theorem adjacent {distance : Nat} (hdistance : s.distance? "super" = some distance) :
    shape.Adjacent distance := by
  have hcons {names : List String} {kind : ScopeKind} {s : Setting} (hplain : "super" ∉ names) :
      Setting.distance? "super" (.scope kind names :: s) =
        (s.distance? "super").map (· + 1) := by
    show List.findIdx? _ (names :: s.scopes) = _
    rw [List.findIdx?_cons, if_neg (by simpa using hplain)]
    rfl
  induction h generalizing distance with
  | top => cases hdistance
  | scope kind hplain _ ih =>
    rw [hcons hplain] at hdistance
    obtain ⟨outer, houter, rfl⟩ := Option.map_eq_some_iff.mp hdistance
    exact (ih houter).outside
  | derived inClassMethod hplain _ ih =>
    rw [hcons hplain] at hdistance
    obtain ⟨outer, houter, rfl⟩ := Option.map_eq_some_iff.mp hdistance
    cases houter
    exact ⟨Nat.one_pos, rfl⟩
  | round _ ih => exact (ih hdistance).inside
  | initializer _ _ _ ih | cls _ _ ih | loop _ ih | again _ ih => exact ih hdistance

/-- A scope of both programs is there in both. -/
theorem scopes_isEmpty (hshared : shape.Shared) : s'.scopes.isEmpty = s.scopes.isEmpty := by
  induction h with
  | top | scope | derived => rfl
  | round => exact absurd rfl hshared
  | initializer _ _ _ ih | cls _ _ ih | loop _ ih | again _ ih => exact ih hshared

/-- No other initializer begins in the second program. -/
theorem initializes {name : String} (hname : s'.initializes name = true) :
    s.initializes name = true := by
  cases h with
  | initializer introduced hshared h =>
    simp only [Setting.initializes, h.scopes_isEmpty hshared] at hname ⊢
    exact hname
  | _ => cases hname

end Setting.Lowers

/-! ## Points -/

/-- The points are about the same, perhaps at another site or on another line. -/
inductive Usage.Same : Usage → Usage → Prop where
  | refers {r r' : Reference} (hkind : r'.kind = r.kind) (htoken : r.token.Same r'.token) :
      Usage.Same (.refers r) (.refers r')
  | breaks {keyword keyword' : Token} : Usage.Same (.breaks keyword) (.breaks keyword')
  | continues {keyword keyword' : Token} : Usage.Same (.continues keyword) (.continues keyword')
  | returns {keyword keyword' : Token} (hasValue : Bool) :
      Usage.Same (.returns keyword hasValue) (.returns keyword' hasValue)

/-- What keeps the rules of scope in the first program keeps them in the second one. -/
theorem Setting.Lowers.keeps {shape : Shape} {s s' : Setting} (h : Setting.Lowers shape s s')
    {usage usage' : Usage} (husage : usage.Same usage')
    (hnone : Point.violation? ⟨s, usage⟩ = none) : Point.violation? ⟨s', usage'⟩ = none := by
  have hcontext := h.context
  have hfunction : s'.function = s.function := hcontext.function
  have hcls : s'.cls = s.cls := hcontext.cls
  have hmethod : s'.inClassMethod = s.inClassMethod := hcontext.inClassMethod
  have hloop (hmem : .loop ∈ s.insideFunction) : .loop ∈ s'.insideFunction := by
    have hdepth : s.insideFunction.count .loop ≤ s'.insideFunction.count .loop := hcontext.loopDepth
    exact List.count_pos_iff.mp (Nat.lt_of_lt_of_le (List.count_pos_iff.mpr hmem) hdepth)
  have hinitializes {name : String} := mt (@initializes _ _ _ h name)
  cases husage with
  | @refers r r' hkind htoken =>
    obtain ⟨kind, token, site⟩ := r
    obtain ⟨kind', token', site'⟩ := r'
    obtain rfl : kind' = kind := hkind
    have hlexeme : token'.lexeme = token.lexeme := htoken.lexeme
    cases kind' with
    | assignment => rfl
    | read | receiver =>
      simp only [Point.violation?, hlexeme, hcls, hmethod] at hnone ⊢
      split_ifs at hnone ⊢ <;> simp_all
    | inherited =>
      simp only [Point.violation?, hcls] at hnone ⊢
      cases hs : s.cls <;> simp_all
  | breaks | continues | returns =>
    simp only [Point.violation?, hfunction] at hnone ⊢
    split_ifs at hnone ⊢ <;> simp_all

end Lox
