import Lox.Resolution
import Lox.Tree.References

/-!
# What a walk leaves as it was

A walk adds errors at the end and takes none back, enters distances for the references of the part
walked and no others, and comes out in the context it went in with. Walking an expression leaves the
open scopes as they were; walking a statement may add names to the innermost one and leaves the
others as they were.
-/

namespace Lox

namespace Walk

/-- `w'` comes after `w` by way of references among `rs`. -/
structure Grows (rs : List Reference) (w w' : Walk) : Prop where
  errors : w.errors <+: w'.errors
  table : ∀ i, i ∉ rs.map Reference.site → w'.table[i]? = w.table[i]?

/-- `w'` comes after `w` by way of a part with the references `rs`. -/
structure Passes (rs : List Reference) (w w' : Walk) : Prop extends Grows rs w w' where
  context : w'.context = w.context

/-- The open scopes are as they were, except for names added to the innermost one. -/
structure SameOutside (w w' : Walk) : Prop where
  tail : w'.scopes.tail = w.scopes.tail
  length : w'.scopes.length = w.scopes.length

/-- A part with these references was walked, and no scope changed. -/
structure Through (rs : List Reference) (w w' : Walk) : Prop extends Passes rs w w' where
  scopes : w'.scopes = w.scopes

/-- A part with these references was walked, and only the innermost scope changed. -/
structure Along (rs : List Reference) (w w' : Walk) : Prop extends
  Passes rs w w', SameOutside w w'

variable {rs ss : List Reference} {w w' w'' : Walk}

/-- A walk comes after itself. -/
theorem Grows.refl (w : Walk) : Grows [] w w :=
  ⟨List.prefix_refl _, fun _ _ => rfl⟩

/-- Walking on by more references. -/
theorem Grows.trans (h : Grows rs w w') (h' : Grows ss w' w'') : Grows (rs ++ ss) w w'' where
  errors := h.errors.trans h'.errors
  table i hi := by
    rw [List.map_append, List.mem_append, not_or] at hi
    rw [h'.table i hi.2, h.table i hi.1]

/-- Nothing is passed on the spot. -/
theorem Passes.refl (w : Walk) : Passes [] w w :=
  ⟨.refl w, rfl⟩

/-- Two parts are passed one after the other. -/
theorem Passes.trans (h : Passes rs w w') (h' : Passes ss w' w'') : Passes (rs ++ ss) w w'' :=
  ⟨h.toGrows.trans h'.toGrows, h'.context.trans h.context⟩

/-- Names may be added to the innermost scope more than once. -/
theorem SameOutside.trans (h : SameOutside w w') (h' : SameOutside w' w'') : SameOutside w w'' :=
  ⟨h'.tail.trans h.tail, h'.length.trans h.length⟩

/-- A walk that stays where it is. -/
theorem Through.refl (w : Walk) : Through [] w w :=
  ⟨.refl w, rfl⟩

/-- Two parts that change no scope. -/
theorem Through.trans (h : Through rs w w') (h' : Through ss w' w'') :
    Through (rs ++ ss) w w'' :=
  ⟨h.toPasses.trans h'.toPasses, h'.scopes.trans h.scopes⟩

/-- A part that changes no scope changes none but the innermost one. -/
theorem Through.along (h : Through rs w w') : Along rs w w' :=
  ⟨h.toPasses, by rw [h.scopes], by rw [h.scopes]⟩

/-- Two parts that may add names. -/
theorem Along.trans (h : Along rs w w') (h' : Along ss w' w'') : Along (rs ++ ss) w w'' :=
  ⟨h.toPasses.trans h'.toPasses, h.toSameOutside.trans h'.toSameOutside⟩

/-- The order of the references does not matter. -/
theorem Through.perm (h : Through rs w w') (hp : rs.Perm ss) : Through ss w w' :=
  ⟨⟨⟨h.errors, fun i hi => h.table i fun hr => hi ((hp.map _).mem_iff.mp hr)⟩, h.context⟩, h.scopes⟩

/-! ## Single steps -/

/-- A report adds an error. -/
theorem report_through (cause : ScopeCause) (token : Token) (w : Walk) :
    Through [] w (w.report cause token) :=
  ⟨⟨⟨List.prefix_append _ _, fun _ _ => rfl⟩, rfl⟩, rfl⟩

/-- A report that may be left out adds an error at most. -/
theorem reportIf_through (broken : Bool) (cause : ScopeCause) (token : Token) (w : Walk) :
    Through [] w (w.reportIf broken cause token) := by
  unfold reportIf
  split
  next => exact report_through cause token w
  next => exact .refl w

/-- A reference may be entered into the table, at its own site. -/
theorem bind_through (kind : ReferenceKind) (site : Site) (name : Token) (w : Walk) :
    Through [⟨kind, name, site⟩] w (w.bind site name) := by
  unfold bind
  split
  next d _ =>
    refine ⟨⟨⟨List.prefix_refl _, fun i hi => ?_⟩, rfl⟩, rfl⟩
    have hne : site ≠ i := fun he => hi (by simp [he])
    rw [Std.TreeMap.getElem?_insert]
    simp [hne]
  next => exact ⟨⟨⟨List.prefix_refl _, fun _ _ => rfl⟩, rfl⟩, rfl⟩

/-- The rule for `super` only reports. -/
theorem checkInherited_through (keyword : Token) (w : Walk) :
    Through [] w (w.checkInherited keyword) := by
  unfold checkInherited
  split
  next => exact report_through _ keyword w
  next => exact report_through _ keyword w
  next => exact .refl w

/-- The rule for `this` only reports. -/
theorem checkReceiver_through (keyword : Token) (w : Walk) :
    Through [] w (w.checkReceiver keyword) := by
  unfold checkReceiver
  split
  next => exact report_through _ keyword w
  next => exact reportIf_through _ _ keyword w

/-- The rule for `return` only reports. -/
theorem checkReturn_through (keyword : Token) (hasValue : Bool) (w : Walk) :
    Through [] w (w.checkReturn keyword hasValue) :=
  (reportIf_through _ _ keyword w).trans (reportIf_through _ _ keyword _)

/-- A name goes into the innermost scope. -/
theorem enter_along (name : String) (defined : Bool) (w : Walk) :
    Along [] w (w.enter name defined) := by
  unfold enter
  split
  next => exact ⟨.refl w, rfl, rfl⟩
  next scope scopes h =>
    refine ⟨⟨⟨List.prefix_refl _, fun _ _ => rfl⟩, rfl⟩, ?_, ?_⟩
    · rw [h]
      rfl
    · rw [h]
      rfl

/-- A declaration enters its name and may report it. -/
theorem declare_along (name : Token) (w : Walk) : Along [] w (w.declare name) :=
  enter_along name.lexeme false w

/-- A definition marks its name. -/
theorem define_along (name : Token) (w : Walk) : Along [] w (w.define name) :=
  enter_along name.lexeme true w

/-- Parameters are declared and defined in turn. -/
theorem defineAll_along (names : List Token) (w : Walk) : Along [] w (w.defineAll names) := by
  induction names generalizing w with
  | nil => exact (Through.refl w).along
  | cons name names ih =>
    exact ((declare_along name w).trans (define_along name _)).trans (ih _)

/-! ## Scopes and contexts around steps -/

/-- What happens in a scope of its own leaves the scopes around as they were. -/
theorem inScope_through {steps : Walk → Walk}
    (h : Along rs { w with scopes := ∅ :: w.scopes } (steps { w with scopes := ∅ :: w.scopes })) :
    Through rs w (w.inScope steps) :=
  ⟨⟨⟨h.errors, h.table⟩, h.context⟩, h.tail⟩

/-- What happens in a scope that begins with one name leaves the scopes around as they were. -/
theorem inScopeOf_through {name : String} {steps : Walk → Walk}
    (h : ∀ w, Along rs w (steps w)) : Through rs w (w.inScopeOf name steps) :=
  inScope_through ((enter_along name true _).trans (h _))

/-- Inside another context no scope need change. -/
theorem within_through {context : Context} {steps : Walk → Walk}
    (h : Through rs { w with context } (steps { w with context })) :
    Through rs w (w.within context steps) :=
  ⟨⟨⟨h.errors, h.table⟩, rfl⟩, h.scopes⟩

/-- A context of its own is left again. -/
theorem within_along {context : Context} {steps : Walk → Walk}
    (h : Along rs { w with context } (steps { w with context })) :
    Along rs w (w.within context steps) :=
  ⟨⟨⟨h.errors, h.table⟩, rfl⟩, h.tail, h.length⟩

/-- The members of a class are walked in scopes of their own, those of the class after those of its
instances. -/
theorem inClass_through {derived : Bool} {instanceMembers classMembers : Walk → Walk}
    (hi : ∀ w, Through rs w (instanceMembers w)) (hc : ∀ w, Through ss w (classMembers w)) :
    Through (rs ++ ss) w (w.inClass derived instanceMembers classMembers) := by
  have hmembers : ∀ w : Walk, Through (rs ++ ss) w
      ((instanceMembers w).within { (instanceMembers w).context with inClassMethod := true }
        classMembers) :=
    fun w => (hi w).trans (within_through (hc _))
  unfold inClass
  cases derived with
  | true => exact inScopeOf_through fun w => (hmembers w).along
  | false => exact hmembers w

end Walk

/-! ## Walks -/

open Walk

mutual

/-- An expression is walked by its own references, and no scope changes. -/
theorem Expr.walk_through : ∀ (e : Expr) (w : Walk), Through e.references w (e.walk w)
  | .literal _, w => .refl w
  | .variable site name, w => (reportIf_through _ _ name w).trans (bind_through .read site name _)
  | .assign site name value, w =>
    ((value.walk_through w).trans (bind_through .assignment site name _)).perm
      List.perm_append_comm
  | .receiver site keyword, w =>
    (checkReceiver_through keyword w).trans (bind_through .receiver site keyword _)
  | .inherited site keyword _, w =>
    (checkInherited_through keyword w).trans (bind_through .inherited site keyword _)
  | .group inner, w => inner.walk_through w
  | .unary _ operand, w => operand.walk_through w
  | .binary left _ right, w => (left.walk_through w).trans (right.walk_through _)
  | .logical left _ right, w => (left.walk_through w).trans (right.walk_through _)
  | .conditional condition whenTrue whenFalse, w =>
    ((condition.walk_through w).trans (whenTrue.walk_through _)).trans (whenFalse.walk_through _)
  | .call callee _ arguments, w =>
    (callee.walk_through w).trans (Expr.walkAll_through arguments _)
  | .get object _, w => object.walk_through w
  | .set object _ value, w => (object.walk_through w).trans (value.walk_through _)
  | .function declaration, w => declaration.walk_through .function w

theorem Expr.walkAll_through : ∀ (es : List Expr) (w : Walk),
    Through (Expr.referencesAll es) w (Expr.walkAll es w)
  | [], w => .refl w
  | e :: es, w => (e.walk_through w).trans (Expr.walkAll_through es _)

theorem Expr.walkOption_through : ∀ (e : Option Expr) (w : Walk),
    Through (Expr.referencesOption e) w (Expr.walkOption e w)
  | none, w => .refl w
  | some e, w => e.walk_through w

/-- A statement may add names to the innermost scope. -/
theorem Stmt.walk_along : ∀ (s : Stmt) (w : Walk), Along s.references w (s.walk w)
  | .block body, w => (inScope_through (Stmt.walkAll_along body _)).along
  | .breakLoop keyword, w => (reportIf_through _ _ keyword w).along
  | .continueLoop keyword, w => (reportIf_through _ _ keyword w).along
  | .classDecl d, w =>
    ((declare_along d.name w).trans (define_along d.name _)).trans (d.walk_through w).along
  | .empty, w => (Through.refl w).along
  | .expression value, w => (value.walk_through w).along
  | .functionDecl declaration, w => by
    have hname : Along [] w
        (declaration.name.elim w fun name => (w.declare name).define name) := by
      cases declaration.name with
      | none => exact (Through.refl w).along
      | some name => exact (declare_along name w).trans (define_along name _)
    exact hname.trans (declaration.walk_through .function _).along
  | .conditional condition whenTrue whenFalse, w =>
    ((condition.walk_through w).along.trans (whenTrue.walk_along _)).trans
      (Stmt.walkOption_along whenFalse _)
  | .input _ target, w => (target.walk_through w).along
  | .print _ value, w => (value.walk_through w).along
  | .returnValue keyword value, w =>
    ((checkReturn_through keyword value.isSome w).trans (Expr.walkOption_through value _)).along
  | .constant name value, w => by
    have h := ((declare_along name w).trans (value.walk_through _).along).trans
      (define_along name _)
    rwa [List.append_nil] at h
  | .var name value, w => by
    have h := ((declare_along name w).trans (Expr.walkOption_through value _).along).trans
      (define_along name _)
    rwa [List.append_nil] at h
  | .loop condition body increment, w =>
    ((condition.walk_through w).along.trans (within_along (body.walk_along _))).trans
      (Expr.walkOption_through increment _).along

/-- Statements in a row may add names to the innermost scope. -/
theorem Stmt.walkAll_along : ∀ (ss : List Stmt) (w : Walk),
    Along (Stmt.referencesAll ss) w (Stmt.walkAll ss w)
  | [], w => (Through.refl w).along
  | s :: ss, w => (s.walk_along w).trans (Stmt.walkAll_along ss _)

theorem Stmt.walkOption_along : ∀ (s : Option Stmt) (w : Walk),
    Along (Stmt.referencesOption s) w (Stmt.walkOption s w)
  | none, w => (Through.refl w).along
  | some s, w => s.walk_along w

/-- A function has a scope of its own. -/
theorem FunctionDecl.walk_through : ∀ (d : FunctionDecl) (role : FunctionContext) (w : Walk),
    Through d.references w (d.walk role w)
  | ⟨_, _, parameters, body⟩, _, _ =>
    within_through (inScope_through
      ((defineAll_along parameters _).trans (Stmt.walkAll_along body _)))

/-- Methods are walked one by one, each around its own `this`. -/
theorem FunctionDecl.walkMethods_through : ∀ (ds : List FunctionDecl) (w : Walk),
    Through (FunctionDecl.referencesAll ds) w (FunctionDecl.walkMethods ds w)
  | [], w => .refl w
  | d :: ds, _ =>
    (inScopeOf_through fun w => (d.walk_through d.methodContext w).along).trans
      (FunctionDecl.walkMethods_through ds _)

theorem FunctionDecl.walkMembers_through :
    ∀ (ds : List FunctionDecl) (role : FunctionContext) (w : Walk),
    Through (FunctionDecl.referencesAll ds) w (FunctionDecl.walkMembers ds role w)
  | [], _, w => .refl w
  | d :: ds, role, _ =>
    (inScopeOf_through fun w => (d.walk_through role w).along).trans
      (FunctionDecl.walkMembers_through ds role _)

/-- A class whose name is declared has all its scopes inside. -/
theorem ClassDecl.walk_through : ∀ (d : ClassDecl) (w : Walk),
    Through d.references ((w.declare d.name).define d.name) (d.walk w)
  | ⟨name, superclass, methods, classMethods, getters, setters⟩, w => by
    have hclass : ∀ w : Walk, Through ((FunctionDecl.referencesAll methods
        ++ FunctionDecl.referencesAll getters ++ FunctionDecl.referencesAll setters)
        ++ FunctionDecl.referencesAll classMethods) w (w.inClass superclass.isSome
        (fun w =>
          FunctionDecl.walkMembers setters .method
            (FunctionDecl.walkMembers getters .method (FunctionDecl.walkMethods methods w)))
        (FunctionDecl.walkMembers classMethods .classMethod)) := fun w =>
      inClass_through
        (fun w => ((FunctionDecl.walkMethods_through methods w).trans
          (FunctionDecl.walkMembers_through getters .method _)).trans
          (FunctionDecl.walkMembers_through setters .method _))
        (fun w => FunctionDecl.walkMembers_through classMethods .classMethod w)
    have hrefs : ClassDecl.references ⟨name, superclass, methods, classMethods, getters, setters⟩
        = Expr.referencesOption superclass ++ ((FunctionDecl.referencesAll methods
          ++ FunctionDecl.referencesAll getters ++ FunctionDecl.referencesAll setters)
          ++ FunctionDecl.referencesAll classMethods) := by
      simp [ClassDecl.references, List.append_assoc]
    rw [hrefs, ClassDecl.walk]
    exact within_through ((Expr.walkOption_through superclass _).trans (hclass _))

end

end Lox
