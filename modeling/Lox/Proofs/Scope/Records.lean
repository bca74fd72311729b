import Mathlib.Data.List.Forall2
import Lox.Proofs.Scope.Points
import Lox.Proofs.Scope.Places

/-!
# What a walk records

A walk in a setting has the setting's scopes open and is in its context (`Walk.At`). So what it
enters into the table for a part, and which errors it reports there, are what the points of the part
say (`Stmt.walk_records`): the stack and the flags of the walk hold nothing else.
-/

namespace Lox

/-! ## Settings -/

/-- The context inside an enclosure, from the one around it. -/
def Enclosure.inside : Enclosure → Context → Context
  | .scope (.body role) _, c => c.inFunction role
  | .scope (.receiver inClassMethod) _, c =>
    { c with inClassMethod := inClassMethod || c.inClassMethod }
  | .scope .block _, c | .scope .superclass _, c | .initializer _, c => c
  | .loop, c => c.inLoop
  | .cls derived, c =>
    { c with cls := if derived then .derived else .base, inClassMethod := false }

namespace Setting

/-- The number of scopes inside the innermost one that declares the name. -/
def distance? (name : String) (s : Setting) : Option Nat :=
  s.scopes.findIdx? fun names => name ∈ names

/-- What the rules of scope ask of a setting. -/
def context (s : Setting) : Context :=
  ⟨s.function, s.cls, s.inClassMethod, s.insideFunction.count .loop⟩

/-- No initializer begins in the setting. -/
def Settled (s : Setting) : Prop :=
  ∀ name, s.initializes name = false

variable {names : List String} {s : Setting}

/-- The context of a setting is made step by step from outside. -/
theorem context_cons (e : Enclosure) (s : Setting) : context (e :: s) = e.inside s.context := by
  cases e with
  | scope kind names =>
    cases kind <;>
      simp [context, function, cls, inClassMethod, insideFunction, insideClass, Enclosure.inside,
        Context.inFunction, Enclosure.role?, Enclosure.derived?, Enclosure.isClassMethod,
        List.findSome?_cons]
  | cls derived =>
    cases derived <;>
      simp [context, function, cls, inClassMethod, insideFunction, insideClass, Enclosure.inside,
        Enclosure.role?, Enclosure.derived?, List.findSome?_cons]
  | _ =>
    simp [context, function, cls, inClassMethod, insideFunction, insideClass, Enclosure.inside,
      Context.inLoop, Enclosure.role?, Enclosure.derived?, Enclosure.isClassMethod,
      List.findSome?_cons]

/-- Names that are declared change no context. -/
theorem context_declaring (names : List String) (s : Setting) :
    (s.declaring names).context = s.context := by
  induction s with
  | nil => rfl
  | cons e around ih =>
    cases e with
    | scope kind earlier =>
      rw [declaring, context_cons, context_cons]
      cases kind <;> rfl
    | _ =>
      rw [declaring, context_cons, context_cons, ih]
      exact fun _ _ h => Enclosure.noConfusion h

/-- Declarations add to the innermost scope. -/
theorem scopes_declaring (names : List String) (s : Setting) :
    (s.declaring names).scopes =
      match s.scopes with
      | [] => []
      | earlier :: outer => (earlier ++ names) :: outer := by
  induction s with
  | nil => rfl
  | cons e around ih =>
    cases e with
    | scope kind earlier => rfl
    | _ => exact ih

/-- Names that are declared begin no initializer. -/
theorem Settled.declaring (h : s.Settled) (names : List String) :
    (s.declaring names).Settled := by
  intro name
  cases s with
  | nil => rfl
  | cons e around =>
    cases e with
    | initializer introduced =>
      have hname := h name
      simp only [Setting.declaring, initializes, scopes_declaring] at hname ⊢
      cases hscopes : scopes around with
      | nil => simp
      | cons earlier outer => simpa [hscopes] using hname
    | _ => rfl

end Setting

/-! ## A walk in a setting -/

open Scope (Adds)

/-- The scope declares just these names. -/
def Scope.Declares (scope : Scope) (names : List String) : Prop :=
  ∀ n, scope.contains n = true ↔ n ∈ names

namespace Scope.Declares

variable {scopes scopes' : List Scope} {added : List Token}

/-- Names that are added to the innermost scope are added to the setting's. -/
theorem adds {s : Setting} (h : List.Forall₂ Declares scopes s.scopes)
    (hadds : Adds added scopes scopes') :
    List.Forall₂ Declares scopes' (s.declaring (added.map Token.lexeme)).scopes := by
  rw [Setting.scopes_declaring]
  generalize s.scopes = names at h
  cases hadds with
  | global =>
    cases h
    exact .nil
  | inner hadded =>
    cases h with
    | cons hscope hinner =>
      exact .cons (fun n => by rw [hadded n, hscope n, List.mem_append]) hinner

/-- Names that the innermost scope declares already can be added once more. -/
theorem again {names : List (List String)} (h : List.Forall₂ Declares scopes names)
    (hadds : Adds added scopes scopes')
    (hnames : ∀ innermost ∈ names.head?, ∀ n ∈ added.map Token.lexeme, n ∈ innermost) :
    List.Forall₂ Declares scopes' names := by
  cases hadds with
  | global => exact h
  | inner hadded =>
    cases h with
    | @cons _ innermost _ _ hscope hinner =>
      refine .cons (fun n => ?_) hinner
      rw [hadded n, hscope n]
      exact or_iff_left_of_imp (hnames innermost rfl n)

end Scope.Declares

/-- The walk has the scopes of the setting open, and is in the context that it makes. -/
structure Walk.At (w : Walk) (s : Setting) : Prop where
  scopes : List.Forall₂ Scope.Declares w.scopes s.scopes
  pending : ∀ name : Token, w.isPending name = s.initializes name.lexeme
  context : w.context = s.context

/-- Entering a name decides whether it is pending, and leaves all others as they were. -/
theorem Walk.isPending_enter (name : String) (defined : Bool) (w : Walk) (other : Token) :
    (w.enter name defined).isPending other =
      if name = other.lexeme then !defined && !w.scopes.isEmpty else w.isPending other := by
  obtain ⟨scopes, table, errors, context⟩ := w
  cases scopes with
  | nil => simp [isPending, enter]
  | cons scope scopes =>
    simp only [isPending, enter, Std.TreeMap.getElem?_insert]
    by_cases hname : name = other.lexeme <;> simp [hname]

namespace Walk.At

variable {w w' : Walk} {s : Setting} {rs : List Reference}

/-- A walk starts outside of everything. -/
theorem start : Walk.start.At [] :=
  ⟨.nil, fun _ => rfl, rfl⟩

/-- Only the scopes and the context of a walk matter. -/
theorem congr (h : w.At s) (hscopes : w'.scopes = w.scopes) (hcontext : w'.context = w.context) :
    w'.At s := by
  refine ⟨hscopes ▸ h.scopes, fun name => ?_, hcontext.trans h.context⟩
  unfold isPending
  rw [hscopes]
  exact h.pending name

/-- A walk that leaves scopes and context as they were stays in its setting. -/
theorem through (h : w.At s) (hw : Through rs w w') : w'.At s :=
  h.congr hw.scopes hw.context

/-- The walk finds a name where the setting has it. -/
theorem distance?_eq (h : w.At s) (name : String) : w.distance? name = s.distance? name := by
  have hscopes := h.scopes
  unfold Walk.distance? Setting.distance?
  generalize w.scopes = scopes, s.scopes = names at hscopes
  induction hscopes with
  | nil => rfl
  | @cons scope names _ _ hname _ ih =>
    have hhead : scope.contains name = decide (name ∈ names) :=
      Bool.eq_iff_iff.mpr ((hname name).trans decide_eq_true_iff.symm)
    rw [List.findIdx?_cons, List.findIdx?_cons, ih, hhead]

/-- Going into a loop or a class changes the context alone. -/
theorem inContext (h : w.At s) (hs : s.Settled) (e : Enclosure) (hscope : e.names? = none)
    (he : Setting.Settled (e :: s)) : (w.inContext (e.inside w.context)).At (e :: s) := by
  refine ⟨?_, fun name => ?_, ?_⟩
  · rw [Setting.scopes, List.filterMap_cons, hscope]
    exact h.scopes
  · rw [he name.lexeme, ← hs name.lexeme]
    exact h.pending name
  · rw [Setting.context_cons, ← h.context]
    rfl

/-- A walk that comes out of an enclosure without a scope stands at the setting around it. -/
theorem leave {e : Enclosure} (h : w'.At (e :: s)) (hscope : e.names? = none)
    (he : Setting.Settled (e :: s)) (hs : s.Settled) (hcontext : w.context = s.context) :
    (w'.inContext w.context).At s := by
  refine ⟨?_, fun name => ?_, hcontext⟩
  · have hscopes := h.scopes
    rw [Setting.scopes, List.filterMap_cons, hscope] at hscopes
    exact hscopes
  · rw [hs name.lexeme, ← he name.lexeme]
    exact h.pending name

/-- A scope is opened that declares nothing so far. -/
theorem opened (h : w.At s) (kind : ScopeKind) (hscopes : w'.scopes = w.scopes)
    (hcontext : w'.context = (Enclosure.scope kind []).inside w.context) :
    w'.opened.At (.scope kind [] :: s) := by
  refine ⟨.cons (fun n => by simp) (hscopes ▸ h.scopes), fun name => ?_, ?_⟩
  · simp [isPending, Walk.opened, Setting.initializes]
  · rw [Setting.context_cons, ← h.context, ← hcontext]
    rfl

/-- A scope is opened that declares one name, which has no initializer. -/
theorem openedWith (h : w.At s) (kind : ScopeKind) (name : String) (hscopes : w'.scopes = w.scopes)
    (hcontext : w'.context = (Enclosure.scope kind [name]).inside w.context) :
    (w'.openedWith name).At (.scope kind [name] :: s) := by
  refine ⟨.cons (fun n => ?_) (hscopes ▸ h.scopes), fun other => ?_, ?_⟩
  · rw [Std.TreeMap.contains_insert]
    simp [eq_comm (a := n)]
  · rw [Walk.openedWith, isPending_enter]
    simp [isPending, Walk.opened, Setting.initializes]
  · rw [Setting.context_cons, ← h.context, ← hcontext]
    rfl

/-- Where the initializer of a declaration begins. -/
theorem declare (h : w.At s) (hs : s.Settled) (name : Token) :
    (w.declare name).At (.initializer name.lexeme :: s.declaring [name.lexeme]) := by
  have hempty : w.scopes.isEmpty = (s.declaring [name.lexeme]).scopes.isEmpty := by
    have hscopes := h.scopes
    rw [Setting.scopes_declaring]
    generalize w.scopes = scopes, s.scopes = names at hscopes
    cases hscopes <;> rfl
  refine ⟨Scope.Declares.adds h.scopes (enter_adds name false w), fun other => ?_, ?_⟩
  · rw [Walk.declare, isPending_enter, h.pending other, hs, hempty]
    unfold Setting.initializes
    by_cases hname : name.lexeme = other.lexeme <;> simp [hname]
  · rw [Setting.context_cons, Setting.context_declaring, ← h.context]
    exact (declare_along name w).context

/-- Behind its initializer a walk stands where the name has been declared. -/
theorem define {name : Token}
    (h : w.At (.initializer name.lexeme :: s.declaring [name.lexeme])) (hs : s.Settled) :
    (w.define name).At (s.declaring [name.lexeme]) := by
  have hs' := hs.declaring [name.lexeme]
  refine ⟨Scope.Declares.again (h.scopes : List.Forall₂ _ _ (s.declaring _).scopes)
    (enter_adds name true w) ?_, fun other => ?_, ?_⟩
  · rw [Setting.scopes_declaring]
    cases s.scopes <;> simp
  · rw [Walk.define, isPending_enter, h.pending other, hs']
    unfold Setting.initializes
    by_cases hname : name.lexeme = other.lexeme <;> simp [hname]
  · rw [(define_along name w).context, h.context, Setting.context_cons]
    rfl

/-- A declaration that needs no initializer. -/
theorem defined (h : w.At s) (hs : s.Settled) (name : Token) :
    ((w.declare name).define name).At (s.declaring [name.lexeme]) :=
  (h.declare hs name).define hs

/-- Parameters are declared in the setting of a body. -/
theorem defineAll (h : w.At s) (hs : s.Settled) (names : List Token) :
    (w.defineAll names).At (s.declaring (names.map Token.lexeme)) := by
  induction names generalizing w s with
  | nil => exact (Setting.declaring_nil s).symm ▸ h
  | cons name names ih =>
    show (Walk.defineAll names _).At (s.declaring ([name.lexeme] ++ names.map Token.lexeme))
    rw [Setting.declaring_append]
    exact ih (h.defined hs name) (hs.declaring _)

/-- Where the body of a function begins. -/
theorem bodyStart (h : w.At s) (d : FunctionDecl) (role : FunctionContext) :
    (d.bodyStart role w).At (.scope (.body role) (d.parameters.map Token.lexeme) :: s) := by
  have hopened :
      (w.inContext (w.context.inFunction role)).opened.At (.scope (.body role) [] :: s) :=
    h.opened (.body role) rfl rfl
  exact hopened.defineAll (fun _ => rfl) d.parameters

end Walk.At

/-! ## What is recorded -/

/-- The entry of the table that the point is for: a reference and its distance. -/
def Point.address? (p : Point) : Option (Site × Nat) :=
  p.reference?.bind fun r => (p.setting.distance? r.token.lexeme).map fun d => (r.site, d)

/-- Enters distances into a table. -/
def Table.enter (entries : List (Site × Nat)) (t : Table) : Table :=
  entries.foldl (fun t e => t.insert e.1 e.2) t

/-- From the one walk to the other, just what the points say is entered and reported. -/
structure Walk.Records (points : List Point) (w w' : Walk) : Prop where
  errors : w'.errors = w.errors ++ points.filterMap Point.violation?
  table : w'.table = w.table.enter (points.filterMap Point.address?)

namespace Walk.Records

variable {w w' w'' : Walk} {points more : List Point} {s : Setting}

/-- No point records nothing. -/
theorem refl (w : Walk) : Records [] w w :=
  ⟨(List.append_nil _).symm, rfl⟩

/-- The points of two parts, one after the other. -/
theorem trans (h : Records points w w') (h' : Records more w' w'') :
    Records (points ++ more) w w'' where
  errors := by rw [h'.errors, h.errors, List.filterMap_append, List.append_assoc]
  table := by rw [h'.table, h.table, List.filterMap_append, Table.enter, Table.enter, Table.enter,
    List.foldl_append]

/-- Steps that record nothing may come first. -/
theorem after_nothing (h : Records [] w w') (h' : Records points w' w'') : Records points w w'' :=
  h.trans h'

/-- The steps of one point may come first. -/
theorem after_point {p : Point} (h : Records [p] w w') (h' : Records points w' w'') :
    Records (p :: points) w w'' :=
  h.trans h'

/-- A step that enters and reports nothing. -/
theorem of_same (herrors : w'.errors = w.errors) (htable : w'.table = w.table) :
    Records [] w w' :=
  ⟨by rw [herrors]; exact (List.append_nil _).symm, htable⟩

/-- A declaration by itself records nothing. -/
theorem enter (name : String) (defined : Bool) (w : Walk) :
    Records [] w (w.enter name defined) := by
  unfold Walk.enter
  split <;> exact of_same rfl rfl

/-- Declaring a name before the walk records nothing. -/
theorem of_enter {name : String} {defined : Bool} (h : Records points (w.enter name defined) w') :
    Records points w w' :=
  .after_nothing (.enter name defined w) h

/-- Declaring a name after the walk records nothing. -/
theorem then_enter (h : Records points w w') (name : String) (defined : Bool) :
    Records points w (w'.enter name defined) := by
  have hboth := h.trans (.enter name defined w')
  rwa [List.append_nil] at hboth

/-- Defining parameters before the walk records nothing. -/
theorem of_defineAll {names : List Token} (h : Records points (w.defineAll names) w') :
    Records points w w' := by
  induction names generalizing w with
  | nil => exact h
  | cons name names ih => exact .of_enter (.of_enter (ih h))

/-- Walking a part inside a scope of its own. -/
theorem inScope {steps : Walk → Walk} (h : Records points w.opened (steps w.opened)) :
    Records points w (w.inScope steps) :=
  ⟨h.errors, h.table⟩

/-- What is recorded inside a scope stays recorded. -/
theorem inScopeOf {name : String} {steps : Walk → Walk}
    (h : Records points (w.openedWith name) (steps (w.openedWith name))) :
    Records points w (w.inScopeOf name steps) :=
  .inScope (.of_enter h)

/-- Walking a part in a context of its own. -/
theorem within {context : Context} {steps : Walk → Walk}
    (h : Records points (w.inContext context) (steps (w.inContext context))) :
    Records points w (w.within context steps) :=
  ⟨h.errors, h.table⟩

/-- The members of a class are walked in the scope that holds `super`, if it has a superclass. -/
theorem inClass (h : w.At s) {points : Setting → List Point}
    {instanceMembers classMembers : Walk → Walk}
    (hmembers : ∀ {w : Walk} {s : Setting}, w.At s → Records (points s) w
      ((instanceMembers w).within { (instanceMembers w).context with inClassMethod := true }
        classMembers)) (derived : Bool) :
    Records (points (if derived then .scope .superclass ["super"] :: s else s)) w
      (w.inClass derived instanceMembers classMembers) := by
  cases derived with
  | true =>
    have hopened : (w.openedWith "super").At (.scope .superclass ["super"] :: s) :=
      h.openedWith .superclass "super" rfl rfl
    rw [Walk.inClass, if_pos rfl, if_pos rfl]
    apply Records.inScopeOf
    exact hmembers hopened
  | false => exact hmembers h

end Walk.Records

/-! ## Single points -/

/-- The walk after the rule for a point was checked. -/
def Walk.checked (p : Point) (w : Walk) : Walk :=
  match p.violation? with
  | some ⟨cause, token⟩ => w.report cause token
  | none => w

namespace Walk

variable {w : Walk} {s : Setting}

/-- A rule that is broken is reported. -/
theorem checked_some {p : Point} {cause : ScopeCause} {token : Token}
    (h : p.violation? = some ⟨cause, token⟩) : w.checked p = w.report cause token := by
  rw [checked, h]

/-- A rule that is kept is not. -/
theorem checked_none {p : Point} (h : p.violation? = none) : w.checked p = w := by
  rw [checked, h]

/-- Checking a rule adds its violation, if there is one. -/
theorem checked_errors (p : Point) (w : Walk) :
    (w.checked p).errors = w.errors ++ p.violation?.toList := by
  unfold checked
  split
  next h => rw [h]; rfl
  next h => rw [h]; exact (List.append_nil _).symm

/-- Checking a rule enters nothing. -/
theorem checked_table (p : Point) (w : Walk) : (w.checked p).table = w.table := by
  unfold checked
  split <;> rfl

/-- Checking a rule leaves the walk in its setting. -/
theorem At.checked (h : w.At s) (p : Point) : (w.checked p).At s := by
  unfold Walk.checked
  split
  next => exact h.congr rfl rfl
  next => exact h

/-- One point, with its violation and its distance. -/
theorem Records.of_violation {p : Point} {w' : Walk}
    (herrors : w'.errors = w.errors ++ p.violation?.toList)
    (htable : w'.table = w.table.enter p.address?.toList) : Records [p] w w' := by
  constructor
  · rw [herrors]
    cases h : p.violation? <;> simp [h]
  · rw [htable]
    cases h : p.address? <;> simp [h]

/-- A point that is no reference has only a rule. -/
theorem Records.checked (w : Walk) {p : Point} (hreference : p.reference? = none) :
    Records [p] w (w.checked p) :=
  .of_violation (checked_errors p w) (by rw [checked_table, Point.address?, hreference]; rfl)

/-- A reference is entered at its distance, after the rule for it was checked. -/
theorem Records.refers (h : w.At s) (r : Reference) :
    Records [⟨s, .refers r⟩] w ((w.checked ⟨s, .refers r⟩).bind r.site r.token) := by
  have hdistance := (h.checked ⟨s, .refers r⟩).distance?_eq r.token.lexeme
  have hentry : Point.address? ⟨s, .refers r⟩ =
    (s.distance? r.token.lexeme).map fun d => (r.site, d) := rfl
  refine .of_violation ?_ ?_
  · rw [← checked_errors]
    unfold bind
    split <;> rfl
  · rw [hentry, bind, hdistance]
    cases s.distance? r.token.lexeme with
    | none => exact checked_table _ w
    | some d => exact congrArg (·.insert r.site d) (checked_table _ w)

/-! ### The rules -/

/-- A variable in its own initializer breaks the rule of its point. -/
theorem At.checkVariable (h : w.At s) (site : Site) (name : Token) :
    w.reportIf (w.isPending name) .ownInitializer name =
      w.checked ⟨s, .refers ⟨.read, name, site⟩⟩ := by
  have hviolation : Point.violation? ⟨s, .refers ⟨.read, name, site⟩⟩ =
      if s.initializes name.lexeme then some ⟨.ownInitializer, name⟩ else none := rfl
  rw [h.pending name, reportIf, Walk.checked, hviolation]
  cases s.initializes name.lexeme <;> rfl

/-- `this` breaks its rule outside of classes and in class methods. -/
theorem At.checkReceiver (h : w.At s) (site : Site) (keyword : Token) :
    w.checkReceiver keyword = w.checked ⟨s, .refers ⟨.receiver, keyword, site⟩⟩ := by
  have hcls : w.context.cls = s.cls := congrArg Context.cls h.context
  have hflag : w.context.inClassMethod = s.inClassMethod := congrArg Context.inClassMethod h.context
  have hviolation : Point.violation? ⟨s, .refers ⟨.receiver, keyword, site⟩⟩ =
      if s.cls = .none then some ⟨.thisOutsideClass, keyword⟩
      else if s.inClassMethod then some ⟨.thisInClassMethod, keyword⟩
      else none := rfl
  rw [Walk.checkReceiver, reportIf, hcls, hflag, Walk.checked, hviolation]
  cases s.cls <;> cases s.inClassMethod <;> rfl

/-- `super` breaks its rule where no superclass is around. -/
theorem At.checkInherited (h : w.At s) (site : Site) (keyword : Token) :
    w.checkInherited keyword = w.checked ⟨s, .refers ⟨.inherited, keyword, site⟩⟩ := by
  have hcls : w.context.cls = s.cls := congrArg Context.cls h.context
  rw [Walk.checkInherited, hcls]
  cases hs : s.cls with
  | none => exact (checked_some (by rw [Point.violation?, hs])).symm
  | base => exact (checked_some (by rw [Point.violation?, hs])).symm
  | derived => exact (checked_none (by rw [Point.violation?, hs])).symm

/-- `return` breaks its rule outside of functions, and with a value in an initializer. -/
theorem At.checkReturn (h : w.At s) (keyword : Token) (hasValue : Bool) :
    w.checkReturn keyword hasValue = w.checked ⟨s, .returns keyword hasValue⟩ := by
  have hfunction : w.context.function = s.function := congrArg Context.function h.context
  have hviolation : Point.violation? ⟨s, .returns keyword hasValue⟩ =
      if s.function = .none then some ⟨.returnOutsideFunction, keyword⟩
      else if s.function = .initializer ∧ hasValue then some ⟨.returnFromInitializer, keyword⟩
      else none := rfl
  rw [Walk.checkReturn, hfunction, Walk.checked, hviolation]
  cases s.function <;> cases hasValue <;> rfl

/-- `break` and `continue` break theirs where no loop is around inside the function. -/
theorem At.checkLoop (h : w.At s) (usage : Usage) {keyword : Token} {cause : ScopeCause}
    (hviolation : Point.violation? ⟨s, usage⟩ =
      if .loop ∈ s.insideFunction then none else some ⟨cause, keyword⟩) :
    w.reportIf (w.context.loopDepth = 0) cause keyword = w.checked ⟨s, usage⟩ := by
  have hdepth : w.context.loopDepth = s.insideFunction.count .loop :=
    congrArg Context.loopDepth h.context
  rw [reportIf, hdepth]
  by_cases hloop : .loop ∈ s.insideFunction
  · rw [checked_none (hviolation.trans (if_pos hloop)), if_neg]
    simpa [List.count_eq_zero] using hloop
  · rw [checked_some (hviolation.trans (if_neg hloop)), if_pos]
    simpa [List.count_eq_zero] using hloop

end Walk

/-! ## Walks -/

open Walk

mutual

/-- The walk over an expression records what its points say. -/
theorem Expr.walk_records : ∀ (e : Expr) {w : Walk} {s : Setting}, w.At s →
    Records (e.points s) w (e.walk w)
  | .literal _, w, _, _ => .refl w
  | .variable site name, w, s, h => by
    rw [Expr.walk, h.checkVariable site name]
    exact .refers h ⟨.read, name, site⟩
  | .assign site name value, w, s, h => by
    -- an assignment breaks no rule, so nothing is checked before it is entered
    have hvalue := value.walk_records h
    exact hvalue.trans (.refers (h.through (value.walk_through w)) ⟨.assignment, name, site⟩)
  | .receiver site keyword, w, s, h => by
    rw [Expr.walk, h.checkReceiver site keyword]
    exact .refers h ⟨.receiver, keyword, site⟩
  | .inherited site keyword _, w, s, h => by
    rw [Expr.walk, h.checkInherited site keyword]
    exact .refers h ⟨.inherited, keyword, site⟩
  | .group inner, _, _, h => inner.walk_records h
  | .unary _ operand, _, _, h => operand.walk_records h
  | .binary left _ right, w, _, h =>
    (left.walk_records h).trans (right.walk_records (h.through (left.walk_through w)))
  | .logical left _ right, w, _, h =>
    (left.walk_records h).trans (right.walk_records (h.through (left.walk_through w)))
  | .conditional condition whenTrue whenFalse, w, _, h => by
    have htrue := h.through (condition.walk_through w)
    have hfalse := htrue.through (whenTrue.walk_through _)
    exact ((condition.walk_records h).trans (whenTrue.walk_records htrue)).trans
      (whenFalse.walk_records hfalse)
  | .call callee _ arguments, w, _, h =>
    (callee.walk_records h).trans
      (Expr.walkAll_records arguments (h.through (callee.walk_through w)))
  | .get object _, _, _, h => object.walk_records h
  | .set object _ value, w, _, h =>
    (object.walk_records h).trans (value.walk_records (h.through (object.walk_through w)))
  | .function declaration, _, _, h => declaration.walk_records .function h

theorem Expr.walkAll_records : ∀ (es : List Expr) {w : Walk} {s : Setting}, w.At s →
    Records (Expr.pointsAll es s) w (Expr.walkAll es w)
  | [], w, _, _ => .refl w
  | e :: es, w, _, h =>
    (e.walk_records h).trans (Expr.walkAll_records es (h.through (e.walk_through w)))

theorem Expr.walkOption_records : ∀ (e : Option Expr) {w : Walk} {s : Setting}, w.At s →
    Records (Expr.pointsOption e s) w (Expr.walkOption e w)
  | none, w, _, _ => .refl w
  | some e, _, _, h => e.walk_records h

/-- A statement is recorded, and the setting after it has what it declares. -/
theorem Stmt.walk_records : ∀ (st : Stmt) {w : Walk} {s : Setting}, s.Settled → w.At s →
    Records (st.points s) w (st.walk w) ∧ (st.walk w).At (s.declaring st.declares)
  | .block body, w, s, hs, h => by
    have hopened : w.opened.At (.scope .block [] :: s) := h.opened .block rfl rfl
    have hbody := Stmt.walkAll_records body (fun _ => rfl) hopened
    rw [Stmt.declares, Setting.declaring_nil]
    exact ⟨.inScope hbody, h.through (inScope_through (Stmt.walkAll_along body _))⟩
  | .breakLoop keyword, w, s, hs, h => by
    rw [Stmt.declares, Setting.declaring_nil, Stmt.walk, h.checkLoop (.breaks keyword) rfl]
    exact ⟨.checked w rfl, h.checked _⟩
  | .continueLoop keyword, w, s, hs, h => by
    rw [Stmt.declares, Setting.declaring_nil, Stmt.walk, h.checkLoop (.continues keyword) rfl]
    exact ⟨.checked w rfl, h.checked _⟩
  | .classDecl d, w, s, hs, h =>
    ⟨d.walk_records hs h, (h.defined hs d.name).through (d.walk_through w)⟩
  | .empty, w, s, hs, h => by
    rw [Stmt.declares, Setting.declaring_nil]
    exact ⟨.refl w, h⟩
  | .expression value, w, s, hs, h => by
    rw [Stmt.declares, Setting.declaring_nil]
    exact ⟨value.walk_records h, h.through (value.walk_through w)⟩
  | .functionDecl d, w, s, hs, h => by
    -- the name is declared around the body, so that the function can call itself
    have hnamed : Records [] w (d.name.elim w fun name => (w.declare name).define name) ∧
        (d.name.elim w fun name => (w.declare name).define name).At
          (s.declaring (d.name.map Token.lexeme).toList) := by
      cases d.name with
      | none => exact ⟨.refl w, (Setting.declaring_nil s).symm ▸ h⟩
      | some name =>
        exact ⟨(Records.enter name.lexeme false w).trans (.enter name.lexeme true _),
          h.defined hs name⟩
    exact ⟨.after_nothing hnamed.1 (d.walk_records .function hnamed.2),
      hnamed.2.through (d.walk_through .function _)⟩
  | .conditional condition whenTrue whenFalse, w, s, hs, h => by
    -- the branches stand in the scope of the whole, so the second one comes after the first
    have hcondition := h.through (condition.walk_through w)
    have htrue := whenTrue.walk_records hs hcondition
    have hfalse := Stmt.walkOption_records whenFalse (hs.declaring _) htrue.2
    rw [Stmt.declares, Setting.declaring_append]
    exact ⟨((condition.walk_records h).trans htrue.1).trans hfalse.1, hfalse.2⟩
  | .input _ target, w, s, hs, h => by
    rw [Stmt.declares, Setting.declaring_nil]
    exact ⟨target.walk_records h, h.through (target.walk_through w)⟩
  | .print _ value, w, s, hs, h => by
    rw [Stmt.declares, Setting.declaring_nil]
    exact ⟨value.walk_records h, h.through (value.walk_through w)⟩
  | .returnValue keyword value, w, s, hs, h => by
    rw [Stmt.declares, Setting.declaring_nil, Stmt.walk, h.checkReturn]
    have hchecked := h.checked ⟨s, .returns keyword value.isSome⟩
    exact ⟨.after_point (.checked w rfl) (Expr.walkOption_records value hchecked),
      hchecked.through (Expr.walkOption_through value _)⟩
  | .constant name value, w, s, hs, h => by
    have hvalue := h.declare hs name
    have hend := hvalue.through (value.walk_through _)
    exact ⟨.then_enter (.of_enter (value.walk_records hvalue)) name.lexeme true, hend.define hs⟩
  | .var name value, w, s, hs, h => by
    have hvalue := h.declare hs name
    have hend := hvalue.through (Expr.walkOption_through value _)
    exact ⟨.then_enter (.of_enter (Expr.walkOption_records value hvalue)) name.lexeme true,
      hend.define hs⟩
  | .loop condition body increment, w, s, hs, h => by
    have hcondition := h.through (condition.walk_through w)
    have hbody := body.walk_records (fun _ => rfl)
      (hcondition.inContext hs .loop rfl (fun _ => rfl))
    -- the increment is no part of the body: the walk has left the loop when it comes to it
    have hafter := hbody.2.leave (e := .loop) rfl (fun _ => rfl) (hs.declaring _)
      (hcondition.context.trans (Setting.context_declaring body.declares s).symm)
    exact ⟨((condition.walk_records h).trans (.within hbody.1)).trans
        (Expr.walkOption_records increment hafter),
      hafter.through (Expr.walkOption_through increment _)⟩

/-- Statements record in the setting that those before them leave. -/
theorem Stmt.walkAll_records : ∀ (sts : List Stmt) {w : Walk} {s : Setting}, s.Settled → w.At s →
    Records (Stmt.pointsAll sts s) w (Stmt.walkAll sts w)
  | [], w, _, _, _ => .refl w
  | st :: sts, w, s, hs, h => by
    have hfirst := st.walk_records hs h
    exact hfirst.1.trans (Stmt.walkAll_records sts (hs.declaring _) hfirst.2)

theorem Stmt.walkOption_records : ∀ (st : Option Stmt) {w : Walk} {s : Setting}, s.Settled →
    w.At s → Records (Stmt.pointsOption st s) w (Stmt.walkOption st w) ∧
      (Stmt.walkOption st w).At (s.declaring (Stmt.declaresOption st))
  | none, w, s, _, h => ⟨.refl w, (Setting.declaring_nil s).symm ▸ h⟩
  | some st, _, _, hs, h => st.walk_records hs h

/-- The body of a function is walked in a setting of its own. -/
theorem FunctionDecl.walk_records : ∀ (d : FunctionDecl) (role : FunctionContext) {w : Walk}
    {s : Setting}, w.At s → Records (d.points role s) w (d.walk role w)
  | ⟨name, keyword, parameters, body⟩, role, w, s, h => by
    have hbody := Stmt.walkAll_records body (fun _ => rfl)
      (h.bodyStart ⟨name, keyword, parameters, body⟩ role)
    exact .within (.inScope (.of_defineAll hbody))

/-- Methods are walked one by one in the setting of their class. -/
theorem FunctionDecl.walkMethods_records : ∀ (ds : List FunctionDecl) {w : Walk} {s : Setting},
    w.At s → Records (FunctionDecl.pointsMethods ds s) w (FunctionDecl.walkMethods ds w)
  | [], w, _, _ => .refl w
  | d :: ds, w, s, h => by
    have hopened : (w.openedWith "this").At (.scope (.receiver false) ["this"] :: s) :=
      h.openedWith (.receiver false) "this" rfl rfl
    have hmethod := d.walk_records d.methodContext hopened
    have hthrough : Through d.references w (w.inScopeOf "this" (d.walk d.methodContext)) :=
      inScopeOf_through fun w => (d.walk_through d.methodContext w).along
    exact .trans (.inScopeOf hmethod) (FunctionDecl.walkMethods_records ds (h.through hthrough))

/-- The members are walked where the context tells whether they are class methods. -/
theorem FunctionDecl.walkMembers_records : ∀ (ds : List FunctionDecl) (role : FunctionContext)
    (inClassMethod : Bool) {w w' : Walk} {s : Setting}, w.At s → w'.scopes = w.scopes →
    w'.context = (Enclosure.scope (.receiver inClassMethod) ["this"]).inside w.context →
    Records (FunctionDecl.pointsMembers ds role inClassMethod s) w'
      (FunctionDecl.walkMembers ds role w')
  | [], _, _, _, w', _, _, _, _ => .refl w'
  | d :: ds, role, inClassMethod, w, w', s, h, hscopes, hcontext => by
    have hmember := d.walk_records role
      (h.openedWith (.receiver inClassMethod) "this" hscopes hcontext)
    have hthrough : Through d.references w' (w'.inScopeOf "this" (d.walk role)) :=
      inScopeOf_through fun w => (d.walk_through role w).along
    exact .trans (.inScopeOf hmember) (FunctionDecl.walkMembers_records ds role inClassMethod h
      (hthrough.scopes.trans hscopes) (hthrough.context.trans hcontext))

/-- A class is walked with its name declared around it. -/
theorem ClassDecl.walk_records : ∀ (d : ClassDecl) {w : Walk} {s : Setting}, s.Settled → w.At s →
    Records (d.points (s.declaring [d.name.lexeme])) w (d.walk w)
  | ⟨name, superclass, methods, classMethods, getters, setters⟩, w, s, hs, h => by
    -- the same for a class with a superclass and one without, but for the scope around
    have hmembers : ∀ {w : Walk} {s : Setting}, w.At s →
        Records (FunctionDecl.pointsMethods methods s
          ++ FunctionDecl.pointsMembers getters .method false s
          ++ FunctionDecl.pointsMembers setters .method false s
          ++ FunctionDecl.pointsMembers classMethods .classMethod true s) w
        (let after := FunctionDecl.walkMembers setters .method
          (FunctionDecl.walkMembers getters .method (FunctionDecl.walkMethods methods w))
        after.within { after.context with inClassMethod := true }
          (FunctionDecl.walkMembers classMethods .classMethod)) := by
      intro w s h
      have hgetters := h.through (FunctionDecl.walkMethods_through methods w)
      have hsetters := hgetters.through (FunctionDecl.walkMembers_through getters .method _)
      have hclass := hsetters.through (FunctionDecl.walkMembers_through setters .method _)
      exact (((FunctionDecl.walkMethods_records methods h).trans
        (FunctionDecl.walkMembers_records getters .method false hgetters rfl rfl)).trans
        (FunctionDecl.walkMembers_records setters .method false hsetters rfl rfl)).trans
        (.within (FunctionDecl.walkMembers_records classMethods .classMethod true hclass rfl rfl))
    have hclause := (h.defined hs name).inContext (hs.declaring _) (.cls superclass.isSome) rfl
      (fun _ => rfl)
    have hbody := hclause.through (Expr.walkOption_through superclass _)
    have hrecords := (Expr.walkOption_records superclass hclause).trans
      (.inClass hbody hmembers superclass.isSome)
    rw [ClassDecl.points, ClassDecl.walk]
    simp only [List.append_assoc] at hrecords ⊢
    exact .of_enter (.of_enter (.within hrecords))

end

end Lox
