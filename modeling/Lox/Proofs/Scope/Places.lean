import Mathlib.Data.List.Forall2
import Lox.Proofs.Scope.Fits

/-!
# The scopes at a place

Which names the open scopes hold, wherever the walk over an accepted tree comes by. A statement adds
the name that it declares to the innermost scope and nothing else (`Stmt.walk_adds`). Only the
scopes made for it hold `this` or `super`, and where the rules of scope allow one of them there is
such a scope (`Visits.placed`).
-/

namespace Lox

open Walk

/-! ## Names added to the innermost scope -/

/-- The second list of scopes is the first one with names added to the innermost scope, if there is
one. -/
inductive Scope.Adds (names : List Token) : List Scope → List Scope → Prop where
  | global : Adds names [] []
  | inner {s s' : Scope} {ss : List Scope}
      (h : ∀ n, s'.contains n = true ↔ s.contains n = true ∨ n ∈ names.map Token.lexeme) :
      Adds names (s :: ss) (s' :: ss)

namespace Scope.Adds

variable {names more : List Token} {ss ss' ss'' : List Scope}

/-- No names are added. -/
theorem refl : ∀ ss : List Scope, Adds [] ss ss
  | [] => .global
  | _ :: _ => .inner fun n => by simp

/-- Scopes that are the same have no names added. -/
theorem of_eq (h : ss' = ss) : Adds [] ss ss' :=
  h ▸ refl ss

/-- Names are added one row after the other. -/
theorem trans (h : Adds names ss ss') (h' : Adds more ss' ss'') :
    Adds (names ++ more) ss ss'' := by
  cases h with
  | global =>
    cases h'
    exact .global
  | inner h =>
    cases h' with
    | inner h' =>
      refine .inner fun n => ?_
      rw [h' n, h n, List.map_append, List.mem_append, or_assoc]

/-- Only the texts of the names matter, and not their order. -/
theorem congr (h : Adds names ss ss')
    (hnames : ∀ n, n ∈ names.map Token.lexeme ↔ n ∈ more.map Token.lexeme) :
    Adds more ss ss' := by
  cases h with
  | global => exact .global
  | inner h => exact .inner fun n => by rw [h n, hnames n]

end Scope.Adds

open Scope (Adds)

/-- Entering a name adds it. -/
theorem Walk.enter_adds (name : Token) (defined : Bool) (w : Walk) :
    Adds [name] w.scopes (w.enter name.lexeme defined).scopes := by
  unfold enter
  split
  next h =>
    rw [h]
    exact .global
  next scope scopes h =>
    rw [h]
    refine .inner fun n => ?_
    rw [Std.TreeMap.contains_insert, Bool.or_eq_true, or_comm, List.map_singleton,
      List.mem_singleton, Std.LawfulEqCmp.compare_beq_iff_eq,
      @eq_comm _ n]

/-- Declaring and defining a name adds it once. -/
theorem Walk.defined_adds (name : Token) (w : Walk) :
    Adds [name] w.scopes ((w.declare name).define name).scopes :=
  ((enter_adds name false w).trans (enter_adds name true _)).congr fun n => by simp

/-- Defining parameters adds them. -/
theorem Walk.defineAll_adds (names : List Token) (w : Walk) :
    Adds names w.scopes (w.defineAll names).scopes := by
  induction names generalizing w with
  | nil => exact .refl _
  | cons name names ih => exact (defined_adds name w).trans (ih _)

/-- The scope of a body begins with the parameters. -/
theorem FunctionDecl.bodyStart_adds (d : FunctionDecl) (role : FunctionContext) (w : Walk) :
    Adds d.parameters (∅ :: w.scopes) (d.bodyStart role w).scopes :=
  defineAll_adds d.parameters (w.inContext (w.context.inFunction role)).opened

mutual

/-- A statement adds what it declares to the innermost scope. -/
theorem Stmt.walk_adds : ∀ (s : Stmt) (w : Walk), s.Tidy →
    Adds s.declared?.toList w.scopes (s.walk w).scopes
  | .block body, w, _ => .of_eq (inScope_through (Stmt.walkAll_along body _)).scopes
  | .breakLoop keyword, w, _ => .of_eq (reportIf_through _ _ keyword w).scopes
  | .continueLoop keyword, w, _ => .of_eq (reportIf_through _ _ keyword w).scopes
  | .classDecl d, w, _ => (defined_adds d.name w).trans (.of_eq (d.walk_through w).scopes)
  | .empty, w, _ => .refl _
  | .expression value, w, _ => .of_eq (value.walk_through w).scopes
  | .functionDecl d, w, h => by
    obtain ⟨⟨name, hname, _⟩, _⟩ := h
    rw [Stmt.walk, Stmt.declared?, hname]
    have hbody := (d.walk_through .function ((w.declare name).define name)).scopes
    exact (defined_adds name w).trans (.of_eq hbody)
  | .conditional condition whenTrue whenFalse, w, h => by
    have hcondition : Adds [] w.scopes (condition.walk w).scopes :=
      .of_eq (condition.walk_through w).scopes
    have htrue := whenTrue.walk_adds (condition.walk w) h.2.1
    -- a branch that declares something would have been refused by the grammar
    rw [h.2.2.1] at htrue
    exact (hcondition.trans htrue).trans (Stmt.walkElse_adds whenFalse _ h.2.2.2)
  | .input _ target, w, _ => .of_eq (target.walk_through w).scopes
  | .print _ value, w, _ => .of_eq (value.walk_through w).scopes
  | .returnValue keyword value, w, _ =>
    .of_eq ((checkReturn_through keyword value.isSome w).trans
      (Expr.walkOption_through value _)).scopes
  | .constant name value, w, _ => by
    have h := ((enter_adds name false w).trans (.of_eq (value.walk_through _).scopes)).trans
      (enter_adds name true _)
    -- the name is entered twice, before its value as not ready and behind it as ready
    exact h.congr fun n => by simp [Stmt.declared?]
  | .var name value, w, _ => by
    have h := ((enter_adds name false w).trans
      (.of_eq (Expr.walkOption_through value _).scopes)).trans
      (enter_adds name true _)
    exact h.congr fun n => by simp [Stmt.declared?]
  | .loop condition body increment, w, h => by
    have hcondition : Adds [] w.scopes (condition.walk w).scopes :=
      .of_eq (condition.walk_through w).scopes
    have hbody := body.walk_adds
      ((condition.walk w).inContext (condition.walk w).context.inLoop) h.2.1
    rw [h.2.2.1] at hbody
    have hincrement : Adds [] (body.walk ((condition.walk w).inContext
        (condition.walk w).context.inLoop)).scopes
      ((Stmt.loop condition body increment).walk w).scopes :=
      .of_eq (Expr.walkOption_through increment _).scopes
    exact (hcondition.trans hbody).trans hincrement

/-- A branch that is tidy declares nothing around itself. -/
theorem Stmt.walkElse_adds : ∀ (s : Option Stmt) (w : Walk), Stmt.TidyElse s →
    Adds [] w.scopes (Stmt.walkOption s w).scopes
  | none, w, _ => .refl _
  | some s, w, h => by
    have hs := s.walk_adds w h.1
    rwa [h.2] at hs

end

/-! ## Which scopes hold what -/

/-- A scope holds `this` or `super` just where its place says so, and it gets no such name from a
declaration. -/
structure Place.Matches (scope : Scope) (place : Place) : Prop where
  this : scope.contains "this" = true ↔ ∃ d, place.region = .receiver d
  super : scope.contains "super" = true ↔ ∃ d, place.region = .superclass d
  pending : ∀ s, place.pending = some s → ∀ name ∈ s.declared?.toList, name.Plain

/-- The scopes open where the walk comes by a part, and the context there, are what the places
say. -/
structure Placed (part : Part) (w : Walk) (ps : List Place) : Prop where
  places : List.Forall₂ Place.Matches w.scopes ps
  receiver : part.isVariable = false → w.context.cls ≠ .none →
    ∃ p ∈ ps, ∃ d, p.region = .receiver d
  superclass : part.isVariable = false → w.context.cls = .derived →
    ∃ p ∈ ps, ∃ d, p.region = .superclass d

/-- Plain names are added to a scope without changing what it stands for. -/
theorem Place.matches_adds {names : List Token} (hnames : ∀ name ∈ names, name.Plain)
    {ss ss' : List Scope} {ps : List Place} (hadds : Adds names ss ss')
    (h : List.Forall₂ Place.Matches ss ps) : List.Forall₂ Place.Matches ss' ps := by
  cases hadds with
  | global => exact h
  | @inner s s' ss hs =>
    cases h with
    | cons hp hps =>
      refine .cons ⟨?_, ?_, hp.pending⟩ hps
      · rw [← hp.this, hs "this"]
        refine or_iff_left fun hthis => ?_
        obtain ⟨name, hname, heq⟩ := List.mem_map.mp hthis
        exact (hnames name hname).ne_this heq
      · rw [← hp.super, hs "super"]
        refine or_iff_left fun hsuper => ?_
        obtain ⟨name, hname, heq⟩ := List.mem_map.mp hsuper
        exact (hnames name hname).ne_super heq

/-- The place of a declaration matches the scope before it is walked. -/
theorem Place.matches_introduce {s : Stmt} (hs : ∀ name ∈ s.declared?.toList, name.Plain)
    {ss : List Scope} {ps : List Place} (h : List.Forall₂ Place.Matches ss ps) :
    List.Forall₂ Place.Matches ss (Place.introduce s ps) := by
  cases h with
  | nil => exact .nil
  | cons hp hps =>
    refine .cons ⟨hp.this, hp.super, fun s' hs' => ?_⟩ hps
    injection hs' with hs'
    exact hs' ▸ hs

/-- A declaration that is pending leaves the regions as they were. -/
theorem Place.mem_introduce {s : Stmt} {ps : List Place} {P : Region → Prop}
    (h : ∃ p ∈ ps, P p.region) : ∃ p ∈ Place.introduce s ps, P p.region := by
  obtain ⟨p, hp, hregion⟩ := h
  cases ps with
  | nil => cases hp
  | cons q qs =>
    rcases List.mem_cons.mp hp with rfl | hp
    · exact ⟨_, List.mem_cons_self, hregion⟩
    · exact ⟨p, List.mem_cons_of_mem _ hp, hregion⟩

/-- A scope for a block or a call begins with nothing in it. -/
theorem Place.matches_empty {region : Region} (hr : ∀ d, region ≠ .receiver d)
    (hs : ∀ d, region ≠ .superclass d) : Place.Matches ∅ ⟨region, none⟩ :=
  ⟨⟨fun h => by simp at h, fun ⟨d, h⟩ => absurd h (hr d)⟩,
    ⟨fun h => by simp at h, fun ⟨d, h⟩ => absurd h (hs d)⟩, fun _ h => nomatch h⟩

/-- A scope with `this` alone is that of a receiver. -/
theorem Place.matches_this (m : FunctionDecl) :
    Place.Matches ((∅ : Scope).insert "this" true) ⟨.receiver m, none⟩ :=
  ⟨⟨fun _ => ⟨m, rfl⟩, fun _ => by simp⟩,
    ⟨fun h => by simp [Std.TreeMap.contains_insert] at h, fun ⟨_, h⟩ => nomatch h⟩,
    fun _ h => nomatch h⟩

/-- A scope with `super` alone is that of a superclass. -/
theorem Place.matches_super (d : ClassDecl) :
    Place.Matches ((∅ : Scope).insert "super" true) ⟨.superclass d, none⟩ :=
  ⟨⟨fun h => by simp [Std.TreeMap.contains_insert] at h, fun ⟨_, h⟩ => nomatch h⟩,
    ⟨fun _ => ⟨d, rfl⟩, fun _ => by simp⟩, fun _ h => nomatch h⟩

namespace Placed

variable {part sub : Part} {w w' : Walk} {ps : List Place}

/-- What was walked before a part of the same scopes does not matter. -/
theorem after (h : Placed part w ps) (hpart : part.isVariable = false) {names : List Token}
    (hnames : ∀ name ∈ names, name.Plain) (hscopes : Adds names w.scopes w'.scopes)
    (hcls : w'.context.cls = w.context.cls) : Placed sub w' ps :=
  ⟨Place.matches_adds hnames hscopes h.places, fun _ hc => h.receiver hpart (hcls ▸ hc),
    fun _ hc => h.superclass hpart (hcls ▸ hc)⟩

/-- What follows an expression in a part is placed where the expression was. -/
theorem through (h : Placed part w ps) (hpart : part.isVariable = false) {rs : List Reference}
    (hw : Through rs w w') : Placed sub w' ps :=
  h.after hpart (List.forall_mem_nil _) (.of_eq hw.scopes) (congrArg Context.cls hw.context)

/-- A scope for a block or a call inside. -/
theorem open' (h : Placed part w ps) (hpart : part.isVariable = false) {region : Region}
    (hr : ∀ d, region ≠ .receiver d) (hs : ∀ d, region ≠ .superclass d) :
    Placed sub w.opened (⟨region, none⟩ :: ps) := by
  refine ⟨.cons (Place.matches_empty hr hs) h.places, fun _ hc => ?_, fun _ hc => ?_⟩
  · obtain ⟨p, hp, hd⟩ := h.receiver hpart hc
    exact ⟨p, List.mem_cons_of_mem _ hp, hd⟩
  · obtain ⟨p, hp, hd⟩ := h.superclass hpart hc
    exact ⟨p, List.mem_cons_of_mem _ hp, hd⟩

/-- The initializer of a declaration that introduces a name. -/
theorem introduce (h : Placed part w ps) (hpart : part.isVariable = false) {s : Stmt}
    {name : Token} (hs : s.declared? = some name) (hname : name.Plain) :
    Placed sub (w.declare name) (Place.introduce s ps) := by
  have hdeclared : Placed sub (w.declare name) ps :=
    h.after hpart (fun t ht => by rwa [List.mem_singleton.mp ht]) (enter_adds name false w)
      (congrArg Context.cls (declare_along name w).context)
  have hcls : (w.declare name).context.cls = w.context.cls :=
    congrArg Context.cls (declare_along name w).context
  have hplain : ∀ t ∈ s.declared?.toList, t.Plain := by
    intro t ht
    rw [hs] at ht
    rwa [List.mem_singleton.mp ht]
  refine ⟨Place.matches_introduce hplain hdeclared.places, fun _ hc => ?_, fun _ hc => ?_⟩
  · rw [hcls] at hc
    exact Place.mem_introduce (P := fun r => ∃ d, r = .receiver d) (h.receiver hpart hc)
  · rw [hcls] at hc
    exact Place.mem_introduce (P := fun r => ∃ d, r = .superclass d) (h.superclass hpart hc)

end Placed

/-! ## Classes -/

namespace ClassDecl

variable {d : ClassDecl} {w : Walk}

/-- A class is named before anything in it is walked. -/
theorem named_adds (d : ClassDecl) (w : Walk) : Adds [d.name] w.scopes (d.named w).scopes :=
  defined_adds d.name w

/-- The walk comes to the clause of the superclass with the class named. -/
theorem clauseStart_adds (d : ClassDecl) (w : Walk) :
    Adds [d.name] w.scopes (d.clauseStart w).scopes :=
  d.named_adds w

/-- The scopes and the class around the members. -/
theorem membersStart_placed {ps : List Place} (hd : d.name.Plain)
    (h : Placed (.statement (.classDecl d)) w ps) :
    List.Forall₂ Place.Matches (d.membersStart w).scopes (d.places ps) ∧
      (d.membersStart w).context.cls = d.classContext := by
  have hclause := Expr.walkOption_through d.superclass (d.clauseStart w)
  have hplaces : List.Forall₂ Place.Matches
      (Expr.walkOption d.superclass (d.clauseStart w)).scopes ps := by
    rw [hclause.scopes]
    exact Place.matches_adds (fun t ht => by rwa [List.mem_singleton.mp ht])
      (d.clauseStart_adds w) h.places
  have hcls : (Expr.walkOption d.superclass (d.clauseStart w)).context.cls = d.classContext :=
    congrArg Context.cls hclause.context
  unfold membersStart places
  split
  next => exact ⟨.cons (Place.matches_super d) hplaces, hcls⟩
  next => exact ⟨hplaces, hcls⟩

/-- Walking a member leaves scopes and class as they are for the next one. -/
theorem Member.through {m : FunctionDecl} {role : FunctionContext} {w' : Walk}
    (h : d.Member w m role w') :
    w'.scopes = (d.membersStart w).scopes ∧
      w'.context.cls = (d.membersStart w).context.cls := by
  have hgetters := FunctionDecl.walkMethods_through d.methods (d.membersStart w)
  have hsetters := hgetters.trans (FunctionDecl.walkMembers_through d.getters .method _)
  have hclass := hsetters.trans (FunctionDecl.walkMembers_through d.setters .method _)
  cases h with
  | @method before after _ h =>
    have hw := FunctionDecl.walkMethods_through before (d.membersStart w)
    exact ⟨hw.scopes, congrArg Context.cls hw.context⟩
  | @getter before after _ h =>
    have hw := hgetters.trans (FunctionDecl.walkMembers_through before .method _)
    exact ⟨hw.scopes, congrArg Context.cls hw.context⟩
  | @setter before after _ h =>
    have hw := hsetters.trans (FunctionDecl.walkMembers_through before .method _)
    exact ⟨hw.scopes, congrArg Context.cls hw.context⟩
  | @classMethod before after _ h =>
    have hw := FunctionDecl.walkMembers_through before .classMethod (d.classMethodsStart w)
    have hstart : (d.classMethodsStart w).context.cls = (d.membersStart w).context.cls := by
      rw [← hclass.context]
      rfl
    exact ⟨hw.scopes.trans hclass.scopes, (congrArg Context.cls hw.context).trans hstart⟩

end ClassDecl

namespace Placed

variable {w : Walk} {ps : List Place}

/-- The body of a function is in the scope of the call. -/
theorem body {d : FunctionDecl} {role : FunctionContext} (htidy : d.Tidy)
    (h : Placed (.function d role) w ps) :
    Placed (.statements d.body) (d.bodyStart role w) (⟨.call d, none⟩ :: ps) := by
  have hcontext : Placed (.function d role) (w.inContext (w.context.inFunction role)) ps :=
    h.after rfl (List.forall_mem_nil _) (.refl _) rfl
  have hcall : Placed (.function d role)
      (w.inContext (w.context.inFunction role)).opened (⟨.call d, none⟩ :: ps) :=
    hcontext.open' rfl (fun _ hr => nomatch hr) (fun _ hr => nomatch hr)
  exact hcall.after rfl htidy.plain (defineAll_adds d.parameters _)
    (congrArg Context.cls (defineAll_along d.parameters _).context)

/-- The clause of a class is in the scope around, where its name is introduced already. -/
theorem clause {d : ClassDecl} {clause : Expr} (htidy : d.Tidy) (hd : d.superclass = some clause)
    (h : Placed (.statement (.classDecl d)) w ps) :
    Placed (.expression clause) (d.clauseStart w) (Place.introduce (.classDecl d) ps) := by
  obtain ⟨site, parent, rfl, _⟩ := htidy.superclass hd
  refine ⟨Place.matches_introduce (Stmt.Tidy.plain (s := .classDecl d) htidy) ?_,
    (fun hp => nomatch hp), (fun hp => nomatch hp)⟩
  exact Place.matches_adds (fun t ht => by rw [List.mem_singleton.mp ht]; exact htidy.plain)
    (d.clauseStart_adds w) h.places

/-- A member is in a scope that holds `this`, and behind that there is one for the superclass if the
class has one. -/
theorem member {w' : Walk} {d : ClassDecl} {m : FunctionDecl} {role : FunctionContext}
    (htidy : d.Tidy) (hm : d.Member w m role w') (h : Placed (.statement (.classDecl d)) w ps) :
    Placed (.function m role) (w'.openedWith "this") (⟨.receiver m, none⟩ :: d.places ps) := by
  obtain ⟨hplaces, hcls⟩ := ClassDecl.membersStart_placed htidy.plain h
  obtain ⟨hscopes, hcls'⟩ := hm.through
  refine ⟨?_, fun _ _ => ⟨_, List.mem_cons_self, m, rfl⟩, fun _ hc => ?_⟩
  · show List.Forall₂ _ (_ :: w'.scopes) _
    rw [hscopes]
    exact .cons (Place.matches_this m) hplaces
  · -- the context is that of a derived class only if there is a scope for its superclass
    have hderived : d.classContext = .derived := by
      rw [← hcls, ← hcls']
      exact hc
    unfold ClassDecl.classContext at hderived
    unfold ClassDecl.places
    split at hderived
    next hsome =>
      rw [if_pos hsome]
      exact ⟨_, List.mem_cons_of_mem _ List.mem_cons_self, d, rfl⟩
    next => cases hderived

end Placed

/-! ## All parts -/

/-- Wherever the walk over an accepted tree comes by, scopes and context are what the places
say. -/
theorem Visits.placed {T : Table} {root part : Part} {w : Walk} {ps : List Place}
    (hroot : Accepted T root) (h : Visits root w ps part) : Placed part w ps := by
  induction h with
  | root => exact ⟨.nil, fun _ hc => absurd rfl hc, fun _ hc => nomatch hc⟩
  | assignValue h ih | groupInner h ih | unaryOperand h ih | binaryLeft h ih | logicalLeft h ih
  | choiceCondition h ih | callee h ih | getObject h ih | setObject h ih | literalFunction h ih
  | firstExpression h ih | firstStatement h ih | expressionValue h ih | condition h ih
  | inputTarget h ih | printValue h ih | loopCondition h ih =>
    exact ih.through rfl (.refl _)
  | binaryRight h ih | logicalRight h ih | choiceTrue h ih | callArguments h ih | setValue h ih
  | nextExpressions h ih | whenTrue h ih =>
    exact ih.through rfl (Expr.walk_through _ _)
  | choiceFalse h ih =>
    exact ih.through rfl ((Expr.walk_through _ _).trans (Expr.walk_through _ _))
  | body h ih => exact ih.body (h.fits hroot).tidy
  | clause h hd ih => exact ih.clause (h.fits hroot).tidy hd
  | member h hm ih => exact ih.member (h.fits hroot).tidy hm
  | @nextStatements w ps s ss h ih =>
    have htidy : s.Tidy := (h.fits hroot).tidy.1
    exact ih.after rfl htidy.plain (s.walk_adds w htidy)
      (congrArg Context.cls (s.walk_along w).context)
  | block h ih => exact ih.open' rfl (fun _ hr => nomatch hr) (fun _ hr => nomatch hr)
  | @declaredFunction w ps d name h hd ih =>
    obtain ⟨⟨name', hname, hplain⟩, _⟩ := (h.fits hroot).tidy
    rw [hd] at hname
    injection hname with hname
    subst hname
    exact ih.after rfl (fun t ht => by rwa [List.mem_singleton.mp ht]) (defined_adds name w)
      (congrArg Context.cls ((declare_along name w).trans (define_along name _)).context)
  | @whenFalse w ps condition whenTrue whenFalse h ih =>
    have htidy := (h.fits hroot).tidy
    have hcondition : Placed (.statement (.conditional condition whenTrue (some whenFalse)))
        (condition.walk w) ps := ih.through rfl (Expr.walk_through _ _)
    -- a branch is no declaration, so walking it adds no name to the scope around
    have hadds := whenTrue.walk_adds (condition.walk w) htidy.2.1
    rw [htidy.2.2.1] at hadds
    exact hcondition.after rfl (List.forall_mem_nil _) hadds
      (congrArg Context.cls (whenTrue.walk_along _).context)
  | @returnedValue w ps keyword value h ih =>
    exact ih.through rfl (checkReturn_through keyword true w)
  | constantValue h ih => exact ih.introduce rfl rfl (h.fits hroot).tidy.1
  | varValue h ih => exact ih.introduce rfl rfl (h.fits hroot).tidy.1
  | @loopBody w ps condition body increment h ih =>
    have hcondition : Placed (.statement (.loop condition body increment)) (condition.walk w) ps :=
      ih.through rfl (Expr.walk_through _ _)
    exact hcondition.after rfl (List.forall_mem_nil _) (.refl _) rfl
  | @loopIncrement w ps condition increment body h ih =>
    have htidy := (h.fits hroot).tidy
    have hcondition : Placed (.statement (.loop condition body (some increment)))
        (condition.walk w) ps := ih.through rfl (Expr.walk_through _ _)
    have hadds := body.walk_adds
      ((condition.walk w).inContext (condition.walk w).context.inLoop) htidy.2.1
    rw [htidy.2.2.1] at hadds
    exact hcondition.after rfl (List.forall_mem_nil _) hadds rfl

end Lox
