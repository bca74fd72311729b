import Lox.Proofs.Scope.Points
import Lox.Proofs.Scope.Resolve

/-!
# What resolving restores

Resolving a statement ends with the context it began with, with the scopes that were open, and with
all of them but the innermost as they were. The innermost one has the names that the statement
declares, all of them marked as defined, and for the others what it had before
(`Stmt.walk_marks`). An expression changes no scope. Errors are added at the end, and the table
loses no entry and gets none but for references of the part that was resolved.

All this holds from any state, and of the walk that puts everything back by hand
(`resolving_restores`).
-/

namespace Lox

open Walk

/-! ## Names marked in the innermost scope -/

/-- The second list of scopes is the first one with names marked as defined in the innermost scope,
if there is one. -/
inductive Scope.Marks (names : List String) : List Scope → List Scope → Prop where
  | global : Marks names [] []
  | inner {s s' : Scope} {ss : List Scope}
      (h : ∀ n, s'[n]? = if n ∈ names then some true else s[n]?) :
      Marks names (s :: ss) (s' :: ss)

namespace Scope.Marks

variable {names more : List String} {ss ss' ss'' : List Scope}

/-- No names are marked. -/
theorem refl : ∀ ss : List Scope, Marks [] ss ss
  | [] => .global
  | _ :: _ => .inner fun _ => rfl

/-- Scopes that are the same have no names marked. -/
theorem of_eq (h : ss' = ss) : Marks [] ss ss' :=
  h ▸ refl ss

/-- Names are marked one after the other. -/
theorem trans (h : Marks names ss ss') (h' : Marks more ss' ss'') :
    Marks (names ++ more) ss ss'' := by
  cases h with
  | global =>
    cases h'
    exact .global
  | inner h =>
    cases h' with
    | inner h' =>
      refine .inner fun n => ?_
      rw [h' n, h n]
      by_cases hmore : n ∈ more
      · rw [if_pos hmore, if_pos (List.mem_append_right _ hmore)]
      · simp only [if_neg hmore, List.mem_append, or_iff_left hmore]

/-- What the innermost scope holds afterwards. -/
theorem innermost (h : Marks names ss ss') : ∀ s ∈ ss.head?, ∀ s' ∈ ss'.head?, ∀ n,
    s'[n]? = if n ∈ names then some true else s[n]? := by
  intro s hs s' hs' n
  cases h with
  | global => cases hs
  | inner h =>
    cases hs
    cases hs'
    exact h n

/-- Only names that were pending can still be pending. -/
theorem pending (h : Marks names ss ss') : ∀ s ∈ ss.head?, ∀ s' ∈ ss'.head?, ∀ n ∈ s',
    s'[n]? = some true ∨ s[n]? = some false := by
  intro s hs s' hs' n hn
  have hentry := h.innermost s hs s' hs' n
  split at hentry
  next => exact .inl hentry
  next =>
    rw [← hentry, Std.TreeMap.getElem?_eq_some_getElem hn]
    cases s'[n] with
    | true => exact .inl rfl
    | false => exact .inr rfl

end Scope.Marks

open Scope (Marks)

/-- A name is pending while the scopes do not change, and defined in the end. -/
theorem Walk.define_marks {name : Token} {w w' : Walk}
    (h : w'.scopes = (w.declare name).scopes) :
    Marks [name.lexeme] w.scopes (w'.define name).scopes := by
  obtain ⟨scopes, table, errors, context⟩ := w
  obtain ⟨scopes', table', errors', context'⟩ := w'
  cases scopes with
  | nil =>
    subst h
    exact .global
  | cons scope scopes =>
    subst h
    refine .inner fun n => ?_
    simp only [Std.TreeMap.getElem?_insert, Std.LawfulEqCmp.compare_eq_iff_eq,
      List.mem_singleton, @eq_comm _ name.lexeme n]
    split <;> rfl

mutual

/-- A statement marks what it declares in the innermost scope. -/
theorem Stmt.walk_marks : ∀ (s : Stmt) (w : Walk), Marks s.declares w.scopes (s.walk w).scopes
  | .block body, _ => .of_eq (inScope_through (Stmt.walkAll_along body _)).scopes
  | .breakLoop keyword, w => .of_eq (reportIf_through _ _ keyword w).scopes
  | .continueLoop keyword, w => .of_eq (reportIf_through _ _ keyword w).scopes
  | .classDecl d, w =>
    (@define_marks d.name w (w.declare d.name) rfl).trans (.of_eq (d.walk_through w).scopes)
  | .empty, _ => .refl _
  | .expression value, w => .of_eq (value.walk_through w).scopes
  | .functionDecl d, w => by
    have hbody := Marks.of_eq (d.walk_through .function
      (d.name.elim w fun name => (w.declare name).define name)).scopes
    rw [Stmt.declares, ← List.append_nil (d.name.map Token.lexeme).toList]
    refine .trans ?_ hbody
    cases d.name with
    | none => exact .refl _
    | some name => exact @define_marks name w (w.declare name) rfl
  | .conditional condition whenTrue whenFalse, w => by
    have hcondition : Marks [] w.scopes (condition.walk w).scopes :=
      .of_eq (condition.walk_through w).scopes
    exact (hcondition.trans (whenTrue.walk_marks _)).trans (Stmt.walkOption_marks whenFalse _)
  | .input _ target, w => .of_eq (target.walk_through w).scopes
  | .print _ value, w => .of_eq (value.walk_through w).scopes
  | .returnValue keyword value, w =>
    .of_eq ((checkReturn_through keyword value.isSome w).trans
      (Expr.walkOption_through value _)).scopes
  | .constant _ value, _ => define_marks (value.walk_through _).scopes
  | .var _ value, _ => define_marks (Expr.walkOption_through value _).scopes
  -- condition and increment mark nothing, so what the loop marks is what its body does
  | .loop condition body increment, w => by
    have hcondition : Marks [] w.scopes (condition.walk w).scopes :=
      .of_eq (condition.walk_through w).scopes
    have hbody := body.walk_marks
      ((condition.walk w).inContext (condition.walk w).context.inLoop)
    have hincrement : Marks [] (body.walk ((condition.walk w).inContext
        (condition.walk w).context.inLoop)).scopes
      ((Stmt.loop condition body increment).walk w).scopes :=
      .of_eq (Expr.walkOption_through increment _).scopes
    have h := (hcondition.trans hbody).trans hincrement
    rwa [List.append_nil] at h

theorem Stmt.walkOption_marks : ∀ (s : Option Stmt) (w : Walk),
    Marks (Stmt.declaresOption s) w.scopes (Stmt.walkOption s w).scopes
  | none, _ => .refl _
  | some s, w => s.walk_marks w

end

/-! ## What a walk keeps by its single steps -/

/-- A relation between walks that every report and every entry into the table keeps, whatever
happens to scopes and context meanwhile. -/
structure Walk.Kept (R : Walk → Walk → Prop) : Prop where
  refl : ∀ w, R w w
  trans : ∀ {w w' w''}, R w w' → R w' w'' → R w w''
  report : ∀ cause token w, R w (w.report cause token)
  bind : ∀ site name w, R w (w.bind site name)
  scopes : ∀ scopes w, R w { w with scopes }
  context : ∀ context w, R w { w with context }

namespace Walk.Kept

variable {R : Walk → Walk → Prop} (h : Kept R)
include h

/-- A report that may be left out is kept. -/
theorem reportIf (broken : Bool) (cause : ScopeCause) (token : Token) (w : Walk) :
    R w (w.reportIf broken cause token) := by
  unfold Walk.reportIf
  split
  next => exact h.report cause token w
  next => exact h.refl w

/-- The rule for `super` only reports. -/
theorem checkInherited (keyword : Token) (w : Walk) : R w (w.checkInherited keyword) := by
  unfold Walk.checkInherited
  split
  next => exact h.report _ keyword w
  next => exact h.report _ keyword w
  next => exact h.refl w

/-- The rule for `this` only reports. -/
theorem checkReceiver (keyword : Token) (w : Walk) : R w (w.checkReceiver keyword) := by
  unfold Walk.checkReceiver
  split
  next => exact h.report _ keyword w
  next => exact h.reportIf _ _ keyword w

/-- The rule for `return` only reports. -/
theorem checkReturn (keyword : Token) (hasValue : Bool) (w : Walk) :
    R w (w.checkReturn keyword hasValue) :=
  h.trans (h.reportIf _ _ keyword w) (h.reportIf _ _ keyword _)

/-- Entering a name changes only scopes. -/
theorem enter (name : String) (defined : Bool) (w : Walk) : R w (w.enter name defined) := by
  unfold Walk.enter
  split
  next => exact h.refl w
  next => exact h.scopes _ w

/-- A declaration may report, and a definition changes only scopes. -/
theorem define (name : Token) (w : Walk) : R w ((w.declare name).define name) :=
  h.trans (h.enter _ _ w) (h.enter _ _ _)

/-- Parameters may be reported, and else they change only scopes. -/
theorem defineAll (names : List Token) (w : Walk) : R w (w.defineAll names) := by
  induction names generalizing w with
  | nil => exact h.refl w
  | cons name names ih => exact h.trans (h.define name w) (ih _)

/-- What is kept inside a scope is kept around it. -/
theorem inScope {steps : Walk → Walk} (hsteps : ∀ w, R w (steps w)) (w : Walk) :
    R w (w.inScope steps) :=
  h.trans (h.trans (h.scopes _ w) (hsteps _)) (h.scopes _ _)

/-- What is kept inside a scope that begins with one name is kept around it. -/
theorem inScopeOf {name : String} {steps : Walk → Walk} (hsteps : ∀ w, R w (steps w)) (w : Walk) :
    R w (w.inScopeOf name steps) :=
  h.inScope (fun _ => h.trans (h.enter name true _) (hsteps _)) w

/-- What is kept inside a context is kept around it. -/
theorem within {context : Context} {steps : Walk → Walk} (hsteps : ∀ w, R w (steps w))
    (w : Walk) : R w (w.within context steps) :=
  h.trans (h.trans (h.context context w) (hsteps _)) (h.context _ _)

/-- What is kept by the members of a class is kept by the class. -/
theorem inClass {derived : Bool} {instanceMembers classMembers : Walk → Walk}
    (hi : ∀ w, R w (instanceMembers w)) (hc : ∀ w, R w (classMembers w)) (w : Walk) :
    R w (w.inClass derived instanceMembers classMembers) := by
  have hmembers : ∀ w : Walk, R w
      ((instanceMembers w).within { (instanceMembers w).context with inClassMethod := true }
        classMembers) := fun w => h.trans (hi w) (h.within hc _)
  unfold Walk.inClass
  cases derived with
  | true => exact h.inScopeOf hmembers w
  | false => exact hmembers w

end Walk.Kept

section
variable {R : Walk → Walk → Prop} (h : Kept R)
include h

mutual

/-- The relation holds between the two ends of every walk over an expression. -/
theorem Expr.walk_kept : ∀ (e : Expr) (w : Walk), R w (e.walk w)
  | .literal _, w => h.refl w
  | .variable site name, w => h.trans (h.reportIf _ _ name w) (h.bind site name _)
  | .assign site name value, w => h.trans (value.walk_kept w) (h.bind site name _)
  | .receiver site keyword, w => h.trans (h.checkReceiver keyword w) (h.bind site keyword _)
  | .inherited site keyword _, w => h.trans (h.checkInherited keyword w) (h.bind site keyword _)
  | .group inner, w => inner.walk_kept w
  | .unary _ operand, w => operand.walk_kept w
  | .binary left _ right, w | .logical left _ right, w =>
    h.trans (left.walk_kept w) (right.walk_kept _)
  | .conditional condition whenTrue whenFalse, w =>
    h.trans (h.trans (condition.walk_kept w) (whenTrue.walk_kept _)) (whenFalse.walk_kept _)
  | .call callee _ arguments, w =>
    h.trans (callee.walk_kept w) (Expr.walkAll_kept arguments _)
  | .get object _, w => object.walk_kept w
  | .set object _ value, w => h.trans (object.walk_kept w) (value.walk_kept _)
  | .function declaration, w => declaration.walk_kept .function w

theorem Expr.walkAll_kept : ∀ (es : List Expr) (w : Walk), R w (Expr.walkAll es w)
  | [], w => h.refl w
  | e :: es, w => h.trans (e.walk_kept w) (Expr.walkAll_kept es _)

theorem Expr.walkOption_kept : ∀ (e : Option Expr) (w : Walk), R w (Expr.walkOption e w)
  | none, w => h.refl w
  | some e, w => e.walk_kept w

/-- The relation holds between the two ends of every walk over a statement. -/
theorem Stmt.walk_kept : ∀ (s : Stmt) (w : Walk), R w (s.walk w)
  | .block body, w => h.inScope (Stmt.walkAll_kept body) w
  | .breakLoop keyword, w => h.reportIf _ _ keyword w
  | .continueLoop keyword, w => h.reportIf _ _ keyword w
  | .classDecl declaration, w => declaration.walk_kept w
  | .empty, w => h.refl w
  | .expression value, w => value.walk_kept w
  | .functionDecl declaration, w => by
    have hname : R w (declaration.name.elim w fun name => (w.declare name).define name) := by
      cases declaration.name with
      | none => exact h.refl w
      | some name => exact h.define name w
    exact h.trans hname (declaration.walk_kept .function _)
  | .conditional condition whenTrue whenFalse, w =>
    h.trans (h.trans (condition.walk_kept w) (whenTrue.walk_kept _))
      (Stmt.walkOption_kept whenFalse _)
  | .input _ target, w => target.walk_kept w
  | .print _ value, w => value.walk_kept w
  | .returnValue keyword value, w =>
    h.trans (h.checkReturn keyword value.isSome w) (Expr.walkOption_kept value _)
  | .constant _ value, w =>
    h.trans (h.trans (h.enter _ _ w) (value.walk_kept _)) (h.enter _ _ _)
  | .var _ value, w =>
    h.trans (h.trans (h.enter _ _ w) (Expr.walkOption_kept value _)) (h.enter _ _ _)
  | .loop condition body increment, w =>
    h.trans (h.trans (condition.walk_kept w) (h.within body.walk_kept _))
      (Expr.walkOption_kept increment _)

theorem Stmt.walkAll_kept : ∀ (ss : List Stmt) (w : Walk), R w (Stmt.walkAll ss w)
  | [], w => h.refl w
  | s :: ss, w => h.trans (s.walk_kept w) (Stmt.walkAll_kept ss _)

theorem Stmt.walkOption_kept : ∀ (s : Option Stmt) (w : Walk), R w (Stmt.walkOption s w)
  | none, w => h.refl w
  | some s, w => s.walk_kept w

/-- The relation holds between the two ends of every walk over a function. -/
theorem FunctionDecl.walk_kept : ∀ (d : FunctionDecl) (role : FunctionContext) (w : Walk),
    R w (d.walk role w)
  | ⟨_, _, parameters, body⟩, _, w =>
    h.within (h.inScope fun _ => h.trans (h.defineAll parameters _) (Stmt.walkAll_kept body _)) w

theorem FunctionDecl.walkMethods_kept : ∀ (ds : List FunctionDecl) (w : Walk),
    R w (FunctionDecl.walkMethods ds w)
  | [], w => h.refl w
  | d :: ds, w =>
    h.trans (h.inScopeOf (d.walk_kept d.methodContext) w) (FunctionDecl.walkMethods_kept ds _)

theorem FunctionDecl.walkMembers_kept :
    ∀ (ds : List FunctionDecl) (role : FunctionContext) (w : Walk),
    R w (FunctionDecl.walkMembers ds role w)
  | [], _, w => h.refl w
  | d :: ds, role, w =>
    h.trans (h.inScopeOf (d.walk_kept role) w) (FunctionDecl.walkMembers_kept ds role _)

/-- The relation holds between the two ends of every walk over a class. -/
theorem ClassDecl.walk_kept : ∀ (d : ClassDecl) (w : Walk), R w (d.walk w)
  | ⟨name, superclass, methods, classMethods, getters, setters⟩, w => by
    rw [ClassDecl.walk]
    refine h.trans (h.define name w) (h.within (fun w => ?_) _)
    refine h.trans (Expr.walkOption_kept superclass w) (h.inClass (fun w => ?_) (fun w => ?_) _)
    · exact h.trans (h.trans (FunctionDecl.walkMethods_kept methods w)
        (FunctionDecl.walkMembers_kept getters .method _))
        (FunctionDecl.walkMembers_kept setters .method _)
    · exact FunctionDecl.walkMembers_kept classMethods .classMethod w

end

end

/-- No entry is taken out of the table. -/
theorem Walk.entries_kept : Kept fun w w' => ∀ i ∈ w.table, i ∈ w'.table where
  refl _ _ hi := hi
  trans h h' i hi := h' i (h i hi)
  report _ _ _ _ hi := hi
  bind site name w i hi := by
    unfold Walk.bind
    split
    next d _ => exact Std.TreeMap.mem_insert.mpr (.inr hi)
    next => exact hi
  scopes _ _ _ hi := hi
  context _ _ _ hi := hi

/-! ## Statements and expressions -/

/-- `w'` comes after `w` by resolving a part that declares these names and has these references. -/
structure Walk.Restores (names : List String) (references : List Reference) (w w' : Walk) :
    Prop where
  function : w'.context.function = w.context.function
  cls : w'.context.cls = w.context.cls
  inClassMethod : w'.context.inClassMethod = w.context.inClassMethod
  loopDepth : w'.context.loopDepth = w.context.loopDepth
  height : w'.scopes.length = w.scopes.length
  outer : w'.scopes.tail = w.scopes.tail
  /-- The names declared are defined, and for others the innermost scope has what it had. -/
  innermost : ∀ scope ∈ w.scopes.head?, ∀ scope' ∈ w'.scopes.head?, ∀ n,
    scope'[n]? = if n ∈ names then some true else scope[n]?
  /-- A name is left pending only if it was pending. -/
  pending : ∀ scope ∈ w.scopes.head?, ∀ scope' ∈ w'.scopes.head?, ∀ n ∈ scope',
    scope'[n]? = some true ∨ scope[n]? = some false
  errors : ∃ added, w'.errors = w.errors ++ added
  /-- Only references of the part get entries. -/
  entered : ∀ i, i ∉ references.map Reference.site → w'.table[i]? = w.table[i]?
  /-- No entry is lost. -/
  kept : ∀ i ∈ w.table, i ∈ w'.table
  /-- Where the references of the part are new to the table, all that it had stays as it was. -/
  former : (∀ r ∈ references, r.site ∉ w.table) →
    ∀ (i : Site) (d : Nat), w.table[i]? = some d → w'.table[i]? = some d

/-- What is known of a walk that changes no scope but the innermost one, and loses no entry of the
table. -/
theorem Walk.Restores.of_along {names : List String} {references : List Reference} {w w' : Walk}
    (halong : Along references w w') (hmarks : Marks names w.scopes w'.scopes)
    (hkept : ∀ i ∈ w.table, i ∈ w'.table) : Restores names references w w' where
  function := congrArg Context.function halong.context
  cls := congrArg Context.cls halong.context
  inClassMethod := congrArg Context.inClassMethod halong.context
  loopDepth := congrArg Context.loopDepth halong.context
  height := halong.length
  outer := halong.tail
  innermost := hmarks.innermost
  pending := hmarks.pending
  errors := halong.errors.imp fun _ h => h.symm
  entered := halong.table
  kept := hkept
  former hnew i d hi := by
    have hnot : i ∉ references.map Reference.site := by
      intro hmem
      obtain ⟨r, hr, rfl⟩ := List.mem_map.mp hmem
      exact hnew r hr (Std.TreeMap.mem_iff_isSome_getElem?.mpr (by rw [hi]; rfl))
    rw [halong.table i hnot, hi]

/-- **Resolving restores what it changed on the way.** -/
theorem resolving_restores :
    (∀ (s : Stmt) (w : Walk), ∃ w', s.resolve? w = some w' ∧ w' = s.walk w
      ∧ Restores s.declares s.references w w')
    ∧ ∀ (e : Expr) (w : Walk), ∃ w', e.resolve? w = some w' ∧ w' = e.walk w
      ∧ Restores [] e.references w w' ∧ w'.scopes = w.scopes := by
  refine ⟨fun s w => ⟨s.walk w, s.resolve?_eq w, rfl, ?_⟩,
    fun e w => ⟨e.walk w, e.resolve?_eq w, rfl, ?_, (e.walk_through w).scopes⟩⟩
  · exact .of_along (s.walk_along w) (s.walk_marks w) (s.walk_kept entries_kept w)
  · exact .of_along (e.walk_through w).along (.of_eq (e.walk_through w).scopes)
      (e.walk_kept entries_kept w)

end Lox
