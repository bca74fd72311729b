import Lox.Proofs.Scope.Visits
import Lox.Proofs.Scope.Walk

/-!
# What is accepted of a tree holds of its parts

`Part.Fits T part w`: the walk over the part that begins at `w` meets no error, no two references of
the part share a site, and the table `T` has for the references of the part what the walk enters for
them. If this holds of a whole tree, it holds wherever the walk over the tree comes by
(`Visits.fits`), and then `T` has for each reference the distance found there.
-/

namespace Lox

open Walk

/-- The part is accepted where the walk over it begins at `w`, and the table knows its
references. -/
structure Part.Fits (T : Table) (part : Part) (w : Walk) : Prop where
  errors : (part.walk w).errors = []
  nodup : (part.references.map Reference.site).Nodup
  fresh : ∀ i ∈ part.references.map Reference.site, w.table[i]? = none
  known : ∀ i ∈ part.references.map Reference.site, T[i]? = (part.walk w).table[i]?
  tidy : part.Tidy

/-- What fits has parts that fit: the walk over the whole goes over some references before the part
and over others after it. -/
theorem Part.Fits.sub {T : Table} {part sub : Part} {w w' : Walk} {before after : List Reference}
    (h : part.Fits T w) (hbefore : Grows before w w')
    (hafter : Grows after (sub.walk w') (part.walk w))
    (hrefs : part.references.Perm (before ++ (sub.references ++ after))) (htidy : sub.Tidy) :
    sub.Fits T w' := by
  have hsites := hrefs.map Reference.site
  simp only [List.map_append] at hsites
  have hnodup := hsites.nodup_iff.mp h.nodup
  rw [List.nodup_append] at hnodup
  obtain ⟨_, hrest, hbeforeRest⟩ := hnodup
  rw [List.nodup_append] at hrest
  obtain ⟨hsub, _, hsubAfter⟩ := hrest
  have hmem : ∀ i ∈ sub.references.map Reference.site, i ∈ part.references.map Reference.site :=
    fun i hi => hsites.mem_iff.mpr (by simp [hi])
  refine ⟨?_, hsub, fun i hi => ?_, fun i hi => ?_, htidy⟩
  · exact List.prefix_nil.mp (h.errors ▸ hafter.errors)
  · have hnot : i ∉ before.map Reference.site := fun hb =>
      hbeforeRest i hb i (List.mem_append_left _ hi) rfl
    rw [hbefore.table i hnot, h.fresh i (hmem i hi)]
  · have hnot : i ∉ after.map Reference.site := fun ha => hsubAfter i hi i ha rfl
    rw [h.known i (hmem i hi), hafter.table i hnot]

/-- A part of what fits that the walk over the whole ends with. -/
theorem Part.Fits.last {T : Table} {part sub : Part} {w w' : Walk} {before : List Reference}
    (h : part.Fits T w) (hbefore : Grows before w w')
    (hafter : Grows [] (sub.walk w') (part.walk w))
    (hrefs : part.references = before ++ sub.references) (htidy : sub.Tidy) : sub.Fits T w' := by
  refine h.sub hbefore hafter (.of_eq ?_) htidy
  rw [List.append_nil, hrefs]

/-! ## Functions and classes -/

/-- Opening a scope records nothing. -/
theorem Walk.opened_grows (w : Walk) : Grows [] w w.opened :=
  ⟨List.prefix_refl _, fun _ _ => rfl⟩

/-- Going into a context records nothing. -/
theorem Walk.inContext_grows (context : Context) (w : Walk) : Grows [] w (w.inContext context) :=
  ⟨List.prefix_refl _, fun _ _ => rfl⟩

/-- Opening a scope with a name records nothing. -/
theorem Walk.openedWith_grows (name : String) (w : Walk) : Grows [] w (w.openedWith name) :=
  ⟨(enter_along name true w.opened).errors, (enter_along name true w.opened).table⟩

/-- Closing a scope changes neither errors nor table. -/
theorem Walk.inScope_grows (steps : Walk → Walk) (w : Walk) :
    Grows [] (steps w.opened) (w.inScope steps) :=
  ⟨List.prefix_refl _, fun _ _ => rfl⟩

/-- Leaving a scope records nothing. -/
theorem Walk.inScopeOf_grows (name : String) (steps : Walk → Walk) (w : Walk) :
    Grows [] (steps (w.openedWith name)) (w.inScopeOf name steps) :=
  ⟨List.prefix_refl _, fun _ _ => rfl⟩

/-- Coming back to the former context after some steps records nothing. -/
theorem Walk.within_grows (context : Context) (steps : Walk → Walk) (w : Walk) :
    Grows [] (steps (w.inContext context)) (w.within context steps) :=
  ⟨List.prefix_refl _, fun _ _ => rfl⟩

namespace FunctionDecl

/-- The walk comes to the body of a function with its parameters defined, and has recorded
nothing. -/
theorem bodyStart_grows (d : FunctionDecl) (role : FunctionContext) (w : Walk) :
    Grows [] w (d.bodyStart role w) :=
  ((inContext_grows (w.context.inFunction role) w).trans (opened_grows _)).trans
    (defineAll_along d.parameters _).toGrows

/-- After its body a function records nothing more. -/
theorem walk_grows (d : FunctionDecl) (role : FunctionContext) (w : Walk) :
    Grows [] (Stmt.walkAll d.body (d.bodyStart role w)) (d.walk role w) := by
  obtain ⟨_, _, parameters, body⟩ := d
  exact ⟨List.prefix_refl _, fun _ _ => rfl⟩

/-- The walk over methods goes over each of them and then over those after it. -/
theorem walkMethods_grows (before after : List FunctionDecl) (m : FunctionDecl) (w : Walk) :
    Grows (referencesAll after)
      (m.walk m.methodContext ((walkMethods before w).openedWith "this"))
      (walkMethods (before ++ m :: after) w) := by
  induction before generalizing w with
  | nil =>
    exact (inScopeOf_grows "this" (m.walk m.methodContext) w).trans
      (walkMethods_through after _).toGrows
  | cons d ds ih => exact ih _

/-- After a member come the references of the members behind it. -/
theorem walkMembers_grows (before after : List FunctionDecl) (m : FunctionDecl)
    (role : FunctionContext) (w : Walk) :
    Grows (referencesAll after)
      (m.walk role ((walkMembers before role w).openedWith "this"))
      (walkMembers (before ++ m :: after) role w) := by
  induction before generalizing w with
  | nil =>
    exact (inScopeOf_grows "this" (m.walk role) w).trans
      (walkMembers_through after role _).toGrows
  | cons d ds ih => exact ih _

/-- The references of functions in two rows. -/
theorem referencesAll_append (before after : List FunctionDecl) :
    referencesAll (before ++ after) = referencesAll before ++ referencesAll after := by
  induction before with
  | nil => rfl
  | cons d ds ih => simp [referencesAll, ih]

end FunctionDecl

namespace ClassDecl

variable (d : ClassDecl) (w : Walk)

/-- Naming a class records nothing. -/
theorem named_grows : Grows [] w (d.named w) :=
  ((declare_along d.name w).trans (define_along d.name _)).toGrows

/-- The walk comes to the clause of the superclass with nothing recorded. -/
theorem clauseStart_grows : Grows [] w (d.clauseStart w) :=
  (d.named_grows w).trans (inContext_grows _ _)

/-- Before the members come the references of the clause. -/
theorem membersStart_grows :
    Grows (Expr.referencesOption d.superclass) w (d.membersStart w) := by
  have hclause := (d.clauseStart_grows w).trans
    (Expr.walkOption_through d.superclass (d.clauseStart w)).toGrows
  unfold membersStart
  split
  next =>
    have h := hclause.trans (openedWith_grows "super" _)
    rwa [List.append_nil] at h
  next => exact hclause

/-- Before the getters come the references of the methods. -/
theorem gettersStart_grows :
    Grows (FunctionDecl.referencesAll d.methods) (d.membersStart w) (d.gettersStart w) :=
  (FunctionDecl.walkMethods_through d.methods _).toGrows

/-- Before the setters come the references of the getters. -/
theorem settersStart_grows :
    Grows (FunctionDecl.referencesAll d.getters) (d.gettersStart w) (d.settersStart w) :=
  (FunctionDecl.walkMembers_through d.getters .method _).toGrows

/-- Before the class methods come the references of the setters. -/
theorem classMethodsStart_grows :
    Grows (FunctionDecl.referencesAll d.setters) (d.settersStart w) (d.classMethodsStart w) := by
  have h := (FunctionDecl.walkMembers_through d.setters .method (d.settersStart w)).toGrows.trans
    (inContext_grows { (FunctionDecl.walkMembers d.setters .method (d.settersStart w)).context with
      inClassMethod := true } _)
  rwa [List.append_nil] at h

/-- What comes after the members changes only the scopes and the context. -/
theorem walk_grows :
    Grows [] (FunctionDecl.walkMembers d.classMethods .classMethod (d.classMethodsStart w))
      (d.walk w) := by
  obtain ⟨name, superclass, methods, classMethods, getters, setters⟩ := d
  cases superclass with
  | none => exact ⟨List.prefix_refl _, fun _ _ => rfl⟩
  | some clause => exact ⟨List.prefix_refl _, fun _ _ => rfl⟩

/-- Last come the references of the class methods. -/
theorem classMethods_grows :
    Grows (FunctionDecl.referencesAll d.classMethods) (d.classMethodsStart w) (d.walk w) := by
  have h := (FunctionDecl.walkMembers_through d.classMethods .classMethod _).toGrows.trans
    (d.walk_grows w)
  rwa [List.append_nil] at h

/-- The references of a class in the order in which they are walked. -/
theorem references_eq : d.references =
    Expr.referencesOption d.superclass ++ (FunctionDecl.referencesAll d.methods ++
      (FunctionDecl.referencesAll d.getters ++ (FunctionDecl.referencesAll d.setters ++
        FunctionDecl.referencesAll d.classMethods))) := by
  obtain ⟨name, superclass, methods, classMethods, getters, setters⟩ := d
  simp [ClassDecl.references, List.append_assoc]

/-- A walk over a class goes over some references before each member and over others after it. -/
theorem Member.grows {d : ClassDecl} {w w' : Walk} {m : FunctionDecl} {role : FunctionContext}
    (h : d.Member w m role w') : ∃ before after, Grows before w (w'.openedWith "this") ∧
      Grows after (m.walk role (w'.openedWith "this")) (d.walk w) ∧
      d.references = before ++ (m.references ++ after) := by
  have hsetters := (d.classMethodsStart_grows w).trans (d.classMethods_grows w)
  have hgetters := (d.settersStart_grows w).trans hsetters
  have toGetters := (d.membersStart_grows w).trans (d.gettersStart_grows w)
  have toSetters := toGetters.trans (d.settersStart_grows w)
  have toClassMethods := toSetters.trans (d.classMethodsStart_grows w)
  cases h with
  | @method before after _ h =>
    have hbefore := (d.membersStart_grows w).trans
      (FunctionDecl.walkMethods_through before _).toGrows
    have hafter := FunctionDecl.walkMethods_grows before after m (d.membersStart w)
    rw [← h] at hafter
    refine ⟨_, _, hbefore.trans (openedWith_grows "this" _), hafter.trans hgetters, ?_⟩
    simp [references_eq, h, FunctionDecl.referencesAll_append, FunctionDecl.referencesAll]
  | @getter before after _ h =>
    have hbefore := toGetters.trans (FunctionDecl.walkMembers_through before .method _).toGrows
    have hafter := FunctionDecl.walkMembers_grows before after m .method (d.gettersStart w)
    rw [← h] at hafter
    refine ⟨_, _, hbefore.trans (openedWith_grows "this" _), hafter.trans hsetters, ?_⟩
    simp [references_eq, h, FunctionDecl.referencesAll_append, FunctionDecl.referencesAll]
  | @setter before after _ h =>
    have hbefore := toSetters.trans (FunctionDecl.walkMembers_through before .method _).toGrows
    have hafter := FunctionDecl.walkMembers_grows before after m .method (d.settersStart w)
    rw [← h] at hafter
    refine ⟨_, _, hbefore.trans (openedWith_grows "this" _),
      (hafter.trans (inContext_grows _ _)).trans (d.classMethods_grows w), ?_⟩
    simp [references_eq, h, FunctionDecl.referencesAll_append, FunctionDecl.referencesAll]
  | @classMethod before after _ h =>
    have hbefore := toClassMethods.trans
      (FunctionDecl.walkMembers_through before .classMethod _).toGrows
    have hafter :=
      FunctionDecl.walkMembers_grows before after m .classMethod (d.classMethodsStart w)
    rw [← h] at hafter
    refine ⟨_, _, hbefore.trans (openedWith_grows "this" _), hafter.trans (d.walk_grows w), ?_⟩
    simp [references_eq, h, FunctionDecl.referencesAll_append, FunctionDecl.referencesAll]

/-- The walk over a class goes on from the superclass clause to its end. -/
theorem clause_grows {clause : Expr} (hd : d.superclass = some clause) :
    ∃ after, Grows after (clause.walk (d.clauseStart w)) (d.walk w) ∧
      d.references = clause.references ++ after := by
  have hclause : Grows [] (clause.walk (d.clauseStart w)) (d.membersStart w) := by
    unfold membersStart
    rw [hd]
    exact openedWith_grows "super" _
  refine ⟨_, (((hclause.trans (d.gettersStart_grows w)).trans (d.settersStart_grows w)).trans
    (d.classMethodsStart_grows w)).trans (d.classMethods_grows w), ?_⟩
  simp [references_eq, hd, Expr.referencesOption]

/-- A member of a tidy class is tidy. -/
theorem Member.tidy {d : ClassDecl} {w w' : Walk} {m : FunctionDecl} {role : FunctionContext}
    (h : d.Member w m role w') (hd : d.Tidy) : m.Tidy := by
  obtain ⟨name, superclass, methods, classMethods, getters, setters⟩ := d
  obtain ⟨_, _, hm, hc, hg, hs, _⟩ := hd
  cases h with
  | method h => exact FunctionDecl.tidyAll_iff.mp hm m (by simp_all)
  | getter h => exact FunctionDecl.tidyAll_iff.mp hg m (by simp_all)
  | setter h => exact FunctionDecl.tidyAll_iff.mp hs m (by simp_all)
  | classMethod h => exact FunctionDecl.tidyAll_iff.mp hc m (by simp_all)

end ClassDecl

/-! ## All parts -/

/-- The root fits. -/
def Accepted (T : Table) (root : Part) : Prop :=
  root.Fits T .start

/-- Whatever the walk over an accepted tree comes by fits. -/
theorem Visits.fits {T : Table} {root part : Part} {w : Walk} {ps : List Place}
    (hroot : Accepted T root) (h : Visits root w ps part) : part.Fits T w := by
  induction h with
  | root => exact hroot
  | groupInner h ih | unaryOperand h ih | getObject h ih | literalFunction h ih
  | expressionValue h ih | printValue h ih => exact ih.last (.refl _) (.refl _) rfl ih.tidy
  | @assignValue w ps site name value h ih =>
    -- an assignment is bound behind its value, but comes before it among the references
    refine ih.sub (.refl w) (bind_through .assignment site name _).toGrows ?_ ih.tidy.2
    exact @List.perm_append_comm _ [_] _
  | binaryLeft h ih | logicalLeft h ih | setObject h ih =>
    exact ih.sub (.refl _) (Expr.walk_through _ _).toGrows (.of_eq rfl) ih.tidy.1
  | binaryRight h ih | logicalRight h ih | callArguments h ih | setValue h ih
  | nextExpressions h ih =>
    exact ih.last (Expr.walk_through _ _).toGrows (.refl _) rfl ih.tidy.2
  | choiceCondition h ih =>
    refine ih.sub (.refl _)
      ((Expr.walk_through _ _).trans (Expr.walk_through _ _)).toGrows (.of_eq ?_) ih.tidy.1
    simp [Part.references, Expr.references]
  | choiceTrue h ih =>
    refine ih.sub (Expr.walk_through _ _).toGrows (Expr.walk_through _ _).toGrows (.of_eq ?_)
      ih.tidy.2.1
    simp [Part.references, Expr.references]
  | choiceFalse h ih =>
    exact ih.last ((Expr.walk_through _ _).trans (Expr.walk_through _ _)).toGrows (.refl _) rfl
      ih.tidy.2.2
  | callee h ih | firstExpression h ih =>
    exact ih.sub (.refl _) (Expr.walkAll_through _ _).toGrows (.of_eq rfl) ih.tidy.1
  | @body w ps d role h ih =>
    refine ih.last (d.bodyStart_grows role w) (d.walk_grows role w) ?_
      (FunctionDecl.Tidy.body ih.tidy)
    obtain ⟨_, _, parameters, body⟩ := d
    rfl
  | @clause w ps d clause h hd ih =>
    obtain ⟨after, hafter, hrefs⟩ := d.clause_grows w hd
    refine ih.sub (d.clauseStart_grows w) hafter (.of_eq hrefs) ?_
    obtain ⟨site, parent, rfl, hparent⟩ := ClassDecl.Tidy.superclass ih.tidy hd
    exact hparent
  | member h hm ih =>
    obtain ⟨before, after, hbefore, hafter, hrefs⟩ := hm.grows
    exact ih.sub hbefore hafter (.of_eq hrefs) (hm.tidy ih.tidy)
  | firstStatement h ih =>
    exact ih.sub (.refl _) (Stmt.walkAll_along _ _).toGrows (.of_eq rfl) ih.tidy.1
  | nextStatements h ih =>
    exact ih.last (Stmt.walk_along _ _).toGrows (.refl _) rfl ih.tidy.2
  | @block w ps body h ih =>
    exact ih.last (opened_grows w) (inScope_grows (Stmt.walkAll body) w) rfl ih.tidy
  | @declaredFunction w ps d name h hd ih =>
    have hdone : Grows [] (d.walk .function ((w.declare name).define name))
        ((Stmt.functionDecl d).walk w) := by
      rw [Stmt.walk, hd]
      exact .refl _
    exact ih.last ((declare_along name w).trans (define_along name _)).toGrows hdone rfl ih.tidy.2
  | condition h ih =>
    refine ih.sub (.refl _)
      ((Stmt.walk_along _ _).trans (Stmt.walkOption_along _ _)).toGrows (.of_eq ?_) ih.tidy.1
    simp [Part.references, Stmt.references]
  | whenTrue h ih =>
    refine ih.sub (Expr.walk_through _ _).toGrows (Stmt.walkOption_along _ _).toGrows (.of_eq ?_)
      ih.tidy.2.1
    simp [Part.references, Stmt.references]
  | whenFalse h ih =>
    exact ih.last ((Expr.walk_through _ _).along.trans (Stmt.walk_along _ _)).toGrows (.refl _) rfl
      ih.tidy.2.2.2.1
  | inputTarget h ih =>
    refine ih.last (.refl _) (.refl _) rfl ?_
    obtain ⟨site, name, rfl, hname⟩ := ih.tidy
    exact hname
  | @returnedValue w ps keyword value h ih =>
    exact ih.last (checkReturn_through keyword true w).toGrows (.refl _) rfl ih.tidy
  | @constantValue w ps name value h ih =>
    exact ih.last (declare_along name w).toGrows (define_along name _).toGrows rfl ih.tidy.2
  | @varValue w ps name value h ih =>
    exact ih.last (declare_along name w).toGrows (define_along name _).toGrows rfl ih.tidy.2
  | @loopCondition w ps condition body increment h ih =>
    refine ih.sub (.refl _) ((within_along (body.walk_along _)).trans
      (Expr.walkOption_through _ _).along).toGrows (.of_eq ?_) ih.tidy.1
    simp [Part.references, Stmt.references]
  | @loopBody w ps condition body increment h ih =>
    have hbefore := (condition.walk_through w).toGrows.trans
      (inContext_grows (condition.walk w).context.inLoop _)
    have hafter := (within_grows (condition.walk w).context.inLoop body.walk
      (condition.walk w)).trans (Expr.walkOption_through increment _).toGrows
    refine ih.sub hbefore hafter (.of_eq ?_) ih.tidy.2.1
    simp [Part.references, Stmt.references]
  | @loopIncrement w ps condition increment body h ih =>
    have hbefore := (condition.walk_through w).along.trans
      (@within_along _ _ (condition.walk w).context.inLoop _ (body.walk_along _))
    exact ih.last hbefore.toGrows (.refl _) rfl ih.tidy.2.2.2

end Lox
