import Lox.Proofs.Scope.Distance

/-!
# Inside members of classes

The scopes around a part inside a class are, from the innermost one outwards, those of blocks and
calls up to the call of a member of the class, the scope of the receiver, that of the superclass if
the class has one, and those around the class (`Visits.enclosed`). So `this` is always found right
outside of the call of the member of the textually innermost class (`Visits.receiver_enclosed`), and
`super` one scope further out, whatever lies inside of that call (`Visits.inherited_enclosed`).
-/

namespace Lox

open Walk

/-! ## Regions -/

namespace Region

/-- Is the region that of a block or a call? -/
def isBody : Region → Bool
  | .block _ | .call _ => true
  | .receiver _ | .superclass _ => false

/-- Is the region that of a receiver? -/
def isReceiver : Region → Bool
  | .receiver _ => true
  | .block _ | .call _ | .superclass _ => false

/-- Is the region that of a superclass? -/
def isSuperclass : Region → Bool
  | .superclass _ => true
  | .block _ | .call _ | .receiver _ => false

theorem isReceiver_iff (r : Region) : r.isReceiver = true ↔ ∃ m, r = .receiver m := by
  cases r <;> simp [isReceiver]

theorem isSuperclass_iff (r : Region) : r.isSuperclass = true ↔ ∃ d, r = .superclass d := by
  cases r <;> simp [isSuperclass]

/-- No region of a block or a call is one of a receiver or of a superclass. -/
theorem findIdx?_bodies {inner : List Region} (h : ∀ r ∈ inner, r.isBody = true) :
    inner.findIdx? isReceiver = none ∧ inner.findIdx? isSuperclass = none := by
  constructor
  all_goals
    refine List.findIdx?_eq_none_iff.mpr fun r hr => ?_
    have hbody := h r hr
    cases r <;> first | rfl | cases hbody

end Region

/-- The regions of places are not affected by what a declaration introduces. -/
theorem Place.introduce_regions (s : Stmt) (ps : List Place) :
    (Place.introduce s ps).map Place.region = ps.map Place.region := by
  cases ps <;> rfl

/-- A name that stands in the scopes of some regions alone is found at the first of these. -/
theorem Place.distance?_eq {name : String} {test : Region → Bool} {w : Walk} {ps : List Place}
    (h : List.Forall₂ (fun scope place => scope.contains name = true ↔ test place.region = true)
      w.scopes ps) : w.distance? name = (ps.map Place.region).findIdx? test := by
  unfold distance?
  generalize w.scopes = scopes at h
  induction h with
  | nil => rfl
  | cons hp _ ih =>
    rw [List.map_cons, List.findIdx?_cons, List.findIdx?_cons, ih, Bool.eq_iff_iff.mpr hp]

/-- `this` is found in the innermost scope of a receiver. -/
theorem Placed.distance?_this {part : Part} {w : Walk} {ps : List Place} (h : Placed part w ps) :
    w.distance? "this" = (ps.map Place.region).findIdx? Region.isReceiver :=
  Place.distance?_eq (h.places.imp fun _ _ hp => hp.this.trans (Region.isReceiver_iff _).symm)

/-- `super` is found in the innermost scope of a superclass. -/
theorem Placed.distance?_super {part : Part} {w : Walk} {ps : List Place} (h : Placed part w ps) :
    w.distance? "super" = (ps.map Place.region).findIdx? Region.isSuperclass :=
  Place.distance?_eq (h.places.imp fun _ _ hp => hp.super.trans (Region.isSuperclass_iff _).symm)

/-! ## Members -/

namespace ClassDecl

/-- The members of a class, of all kinds. -/
def members (d : ClassDecl) : List FunctionDecl :=
  d.methods ++ d.getters ++ d.setters ++ d.classMethods

theorem Member.mem {d : ClassDecl} {w w' : Walk} {m : FunctionDecl} {role : FunctionContext}
    (h : d.Member w m role w') : m ∈ d.members := by
  unfold members
  cases h with
  | method h | getter h | setter h | classMethod h => simp [h]

end ClassDecl

/-- A part inside the member `m` of the class `d`, with the places `outer` around the class. The
regions `inner` are those inside the scope of the receiver. -/
structure Enclosed (root part : Part) (w : Walk) (ps : List Place) (d : ClassDecl)
    (m : FunctionDecl) (inner : List Region) (outer : List Place) : Prop where
  declared : ∃ w₀, Visits root w₀ outer (.statement (.classDecl d))
  member : m ∈ d.members
  context : w.context.cls = d.classContext
  regions : ps.map Place.region = inner ++ .receiver m :: (d.places outer).map Place.region
  bodies : ∀ r ∈ inner, r.isBody = true
  /-- The outermost of the inner regions is the call of the member, but for the member itself. -/
  call : inner.getLast? = some (.call m) ∨ inner = [] ∧ ∃ role, part = .function m role

/-- Inside a class, the part is inside a member of it. -/
def InClass (root part : Part) (w : Walk) (ps : List Place) : Prop :=
  w.context.cls ≠ .none → ∃ d m inner outer, Enclosed root part w ps d m inner outer

section Enclosed

variable {root part sub : Part} {w w' : Walk} {ps ps' : List Place}

/-- A part inside of another one that is no function. -/
theorem InClass.after (h : InClass root part w ps) (hpart : ∀ d role, part ≠ .function d role)
    (hcls : w'.context.cls = w.context.cls)
    (hregions : ps'.map Place.region = ps.map Place.region) : InClass root sub w' ps' := by
  intro hc
  obtain ⟨d, m, inner, outer, h⟩ := h (hcls ▸ hc)
  refine ⟨d, m, inner, outer, h.declared, h.member, hcls.trans h.context,
    hregions.trans h.regions, h.bodies, .inl (h.call.resolve_right ?_)⟩
  exact fun ⟨_, role, hrole⟩ => hpart m role hrole

/-- A part of the same scopes, with an expression walked before it. -/
theorem InClass.through (h : InClass root part w ps) (hpart : ∀ d role, part ≠ .function d role)
    {rs : List Reference} (hw : Through rs w w') : InClass root sub w' ps :=
  h.after hpart (congrArg Context.cls hw.context) rfl

/-- A part in a scope for a block or a call inside. -/
theorem InClass.inside (h : InClass root part w ps) {region : Region}
    (hregion : region.isBody = true) (hcls : w'.context.cls = w.context.cls)
    (hcall : ∀ d role, part = .function d role → region = .call d) :
    InClass root sub w' (⟨region, none⟩ :: ps) := by
  intro hc
  obtain ⟨d, m, inner, outer, h⟩ := h (hcls ▸ hc)
  refine ⟨d, m, region :: inner, outer, h.declared, h.member, hcls.trans h.context,
    congrArg (region :: ·) h.regions, List.forall_mem_cons.mpr ⟨hregion, h.bodies⟩, .inl ?_⟩
  rw [List.getLast?_cons]
  rcases h.call with hlast | ⟨rfl, role, hrole⟩
  · rw [hlast]
    rfl
  · rw [hcall m role hrole]
    rfl

end Enclosed

/-- Wherever the walk over an accepted tree comes by inside a class, it is inside a member of it. -/
theorem Visits.enclosed {T : Table} {root part : Part} {w : Walk} {ps : List Place}
    (hroot : Accepted T root) (h : Visits root w ps part) (hpart : part.isVariable = false) :
    InClass root part w ps := by
  induction h with
  | root => exact fun hc => absurd rfl hc
  -- parts that begin where the part around them does
  | assignValue h ih | groupInner h ih | unaryOperand h ih | binaryLeft h ih | logicalLeft h ih
  | choiceCondition h ih | callee h ih | getObject h ih | setObject h ih | literalFunction h ih
  | firstExpression h ih | firstStatement h ih | expressionValue h ih | condition h ih
  | inputTarget h ih | printValue h ih | loopCondition h ih =>
    exact (ih rfl).through (fun _ _ heq => nomatch heq) (.refl _)
  -- parts after an expression
  | binaryRight h ih | logicalRight h ih | choiceTrue h ih | callArguments h ih | setValue h ih
  | nextExpressions h ih | whenTrue h ih =>
    exact (ih rfl).through (fun _ _ heq => nomatch heq) (Expr.walk_through _ _)
  | choiceFalse h ih =>
    exact (ih rfl).through (fun _ _ heq => nomatch heq)
      ((Expr.walk_through _ _).trans (Expr.walk_through _ _))
  | @body w ps d role h ih =>
    have hcls : (d.bodyStart role w).context.cls = w.context.cls := by
      rw [FunctionDecl.bodyStart, (defineAll_along d.parameters _).context]
      rfl
    refine (ih rfl).inside rfl hcls ?_
    rintro _ _ ⟨⟩
    rfl
  -- a superclass clause is inside the class and in no member, but it holds no other part
  | @clause w ps d clause h hd ih =>
    obtain ⟨site, parent, rfl, _⟩ := (h.fits hroot).tidy.superclass hd
    cases hpart
  -- here the innermost class changes
  | @member w w' ps d m role h hm ih =>
    have htidy : d.Tidy := (h.fits hroot).tidy
    obtain ⟨_, hcls⟩ := ClassDecl.membersStart_placed htidy.plain (h.placed hroot)
    refine fun _ => ⟨d, m, [], ps, ⟨w, h⟩, hm.mem, hm.through.2.trans hcls, rfl,
      fun _ hr => (nomatch hr), .inr ⟨rfl, role, rfl⟩⟩
  | @nextStatements w ps s ss h ih =>
    exact (ih rfl).after (fun _ _ heq => nomatch heq)
      (congrArg Context.cls (s.walk_along w).context) rfl
  | block h ih => exact (ih rfl).inside rfl rfl fun _ _ heq => nomatch heq
  | @declaredFunction w ps d name h hd ih =>
    exact (ih rfl).after (fun _ _ heq => nomatch heq)
      (congrArg Context.cls ((declare_along name w).trans (define_along name _)).context) rfl
  | @whenFalse w ps condition whenTrue whenFalse h ih =>
    have hbetween := (condition.walk_through w).along.trans (whenTrue.walk_along _)
    exact (ih rfl).after (fun _ _ heq => nomatch heq) (congrArg Context.cls hbetween.context) rfl
  | @returnedValue w ps keyword value h ih =>
    exact (ih rfl).through (fun _ _ heq => nomatch heq) (checkReturn_through keyword true w)
  | @constantValue w ps name value h ih =>
    exact (ih rfl).after (fun _ _ heq => nomatch heq)
      (congrArg Context.cls (declare_along name w).context) (Place.introduce_regions _ ps)
  | @varValue w ps name value h ih =>
    exact (ih rfl).after (fun _ _ heq => nomatch heq)
      (congrArg Context.cls (declare_along name w).context) (Place.introduce_regions _ ps)
  | @loopBody w ps condition body increment h ih | @loopIncrement w ps condition _ body h ih =>
    have hcls : (condition.walk w).context.cls = w.context.cls :=
      congrArg Context.cls (condition.walk_through w).context
    exact (ih rfl).after (fun _ _ heq => nomatch heq) hcls rfl

/-! ## Where `this` and `super` stand -/

/-- The textually innermost class around the places `ps` is `d`. The part stands in the call of its
member `m`, around which is the scope of the receiver; inside of the call there are only the regions
`inner` of blocks and calls. -/
structure InnermostMember (root : Part) (ps : List Place) (d : ClassDecl) (m : FunctionDecl)
    (inner : List Region) : Prop where
  member : m ∈ d.members
  bodies : ∀ r ∈ inner, r.isBody = true
  around : ∃ w outer, Visits root w outer (.statement (.classDecl d)) ∧
    ps.map Place.region = inner ++ .call m :: .receiver m :: (d.places outer).map Place.region

/-- Inside a class, a part that is no function stands in the call of a member, and `this` is found
right outside of that call. -/
theorem Visits.innermost {T : Table} {root part : Part} {w : Walk} {ps : List Place}
    (hroot : Accepted T root) (h : Visits root w ps part) (hvariable : part.isVariable = false)
    (hpart : ∀ d role, part ≠ .function d role) (hcls : w.context.cls ≠ .none) :
    ∃ d m inner, w.context.cls = d.classContext ∧ InnermostMember root ps d m inner ∧
      w.distance? "this" = some (inner.length + 1) := by
  obtain ⟨d, m, inner, outer, henclosed⟩ := h.enclosed hroot hvariable hcls
  -- the part is no member, so the outermost of the inner regions is the call
  obtain ⟨bodies, rfl⟩ := List.getLast?_eq_some_iff.mp
    (henclosed.call.resolve_right fun ⟨_, role, hfunction⟩ => hpart m role hfunction)
  have hregions := henclosed.regions
  rw [List.append_assoc] at hregions
  have hbodies : ∀ r ∈ bodies, r.isBody = true :=
    fun r hr => henclosed.bodies r (List.mem_append_left _ hr)
  obtain ⟨w₀, hdeclared⟩ := henclosed.declared
  refine ⟨d, m, bodies, henclosed.context,
    ⟨henclosed.member, hbodies, w₀, outer, hdeclared, hregions⟩, ?_⟩
  rw [(h.placed hroot).distance?_this, hregions, List.findIdx?_append,
    (Region.findIdx?_bodies hbodies).1]
  simp [List.findIdx?_cons, Region.isReceiver, Nat.add_comm]

/-- The textually innermost class around the places `ps` is `d`, which has a superclass. The part
stands in the call of its member `m`, around which are the scopes of the receiver and of the
superclass; inside of the call there are only the regions `inner` of blocks and calls. -/
structure InnermostClass (root : Part) (ps : List Place) (d : ClassDecl) (m : FunctionDecl)
    (inner : List Region) : Prop where
  member : m ∈ d.members
  bodies : ∀ r ∈ inner, r.isBody = true
  around : ∃ w outer, Visits root w outer (.statement (.classDecl d)) ∧
    ps.map Place.region =
      inner ++ .call m :: .receiver m :: .superclass d :: outer.map Place.region

/-- `this` stands in the call of a member of a class, and is found right outside of that call. -/
theorem Visits.receiver_enclosed {T : Table} {root : Part} {w : Walk} {ps : List Place}
    (hroot : Accepted T root) {site : Site} {keyword : Token}
    (h : Visits root w ps (.expression (.receiver site keyword))) :
    ∃ d m inner, InnermostMember root ps d m inner ∧
      w.distance? "this" = some (inner.length + 1) := by
  obtain ⟨d, m, inner, -, hmember, hthis⟩ :=
    h.innermost hroot rfl (fun _ _ heq => nomatch heq) (h.receiver_inClass hroot)
  exact ⟨d, m, inner, hmember, hthis⟩

/-- `super` stands in the call of a member of a class with a superclass. `this` is found right
outside of that call, and `super` right outside of `this`. -/
theorem Visits.inherited_enclosed {T : Table} {root : Part} {w : Walk} {ps : List Place}
    (hroot : Accepted T root) {site : Site} {keyword method : Token}
    (h : Visits root w ps (.expression (.inherited site keyword method))) :
    ∃ d m inner, InnermostClass root ps d m inner ∧
      w.distance? "this" = some (inner.length + 1) ∧
      w.distance? "super" = some (inner.length + 2) := by
  have hderived := h.inherited_derived hroot
  obtain ⟨d, m, inner, hcontext, hmember, hthis⟩ :=
    h.innermost hroot rfl (fun _ _ heq => nomatch heq) (by rw [hderived]; nofun)
  have hsuperclass : d.superclass.isSome = true := by
    rw [hderived] at hcontext
    unfold ClassDecl.classContext at hcontext
    split at hcontext
    next hsome => exact hsome
    next => cases hcontext
  obtain ⟨w₀, outer, hdeclared, hregions⟩ := hmember.around
  rw [ClassDecl.places, if_pos hsuperclass] at hregions
  refine ⟨d, m, inner, ⟨hmember.member, hmember.bodies, w₀, outer, hdeclared, hregions⟩, hthis, ?_⟩
  rw [(h.placed hroot).distance?_super, hregions, List.findIdx?_append,
    (Region.findIdx?_bodies hmember.bodies).2]
  simp [List.findIdx?_cons, Region.isSuperclass, Nat.add_comm]

end Lox
