import Lox.Proofs.Grammar.Sites
import Lox.Proofs.Scope.Distance
import Lox.Proofs.Twin.Alike

/-!
# Resolving two writings of a program

The walks over two writings of a program go side by side. Their scopes declare the same names, a
marked scope the new name in place of the old one, and so a reference in the other writing is found
at the distance at which it was found in the first (`distance?_eq`). The induction follows the walk:
it comes by every part of the accepted program in a state that `Visits` knows, and so the distances
of its table are the ones found there.
-/

namespace Lox

open Walk

variable {v : Variation}

/-! ## Scopes -/

/-- The scopes declare the same names, if marked under their names in the other writing. -/
structure Scope.Twin (v : Variation) (mark : Bool) (s s' : Scope) : Prop where
  found : ∀ name, v.Fresh name → s'[v.name mark name]? = s[name]?
  only : ∀ name', s'[name']? ≠ none → ∃ name, v.Fresh name ∧ name' = v.name mark name

/-- Open scopes that declare the same names, and whether they are marked. -/
inductive Scopes.Twin (v : Variation) : List Bool → List Scope → List Scope → Prop where
  | nil : Scopes.Twin v [] [] []
  | cons {mark : Bool} {marks : List Bool} {s s' : Scope} {ss ss' : List Scope}
      (h : s.Twin v mark s') (hs : Scopes.Twin v marks ss ss') :
      Scopes.Twin v (mark :: marks) (s :: ss) (s' :: ss')

/-- A scope without the name has no entry for it. -/
theorem Scope.getElem?_of_contains {s : Scope} {name : String} (h : s.contains name = false) :
    s[name]? = none := by
  rw [Std.TreeMap.contains_eq_isSome_getElem?] at h
  exact Option.not_isSome_iff_eq_none.mp (by simp [h])

/-- New scopes are empty in both writings. -/
theorem Scope.Twin.empty (mark : Bool) : Scope.Twin v mark ∅ ∅ where
  found _ _ := by rw [Std.TreeMap.getElem?_emptyc, Std.TreeMap.getElem?_emptyc]
  only name' h := absurd Std.TreeMap.getElem?_emptyc h

/-- A name that is not the new one is entered under its name in the other writing. -/
theorem Scope.Twin.insert {mark : Bool} {s s' : Scope} (h : s.Twin v mark s') {name name' : String}
    (hfresh : v.Fresh name) (hname : name' = v.name mark name) (defined : Bool) :
    Scope.Twin v mark (s.insert name defined) (s'.insert name' defined) where
  found n hn := by
    rw [Std.TreeMap.getElem?_insert, Std.TreeMap.getElem?_insert]
    by_cases hsame : name = n
    · subst hsame
      simp [hname]
    · have hsame' : name' ≠ v.name mark n := by
        rw [hname]
        exact fun heq => hsame (v.name_injective hfresh hn heq)
      simp [hsame, hsame', h.found n hn]
  only n hn := by
    rw [Std.TreeMap.getElem?_insert] at hn
    by_cases hsame : name' = n
    · exact ⟨name, hfresh, hsame ▸ hname⟩
    · refine h.only n ?_
      simpa [hsame] using hn

/-- A name that is not declared is not declared in the other writing either, not even if changed. -/
theorem Scope.Twin.absent {mark marked : Bool} {s s' : Scope} (h : s.Twin v mark s') {name : String}
    (hfresh : v.Fresh name) (hnone : s[name]? = none) : s'[v.name marked name]? = none := by
  cases hfound : s'[v.name marked name]? with
  | none => rfl
  | some defined =>
    obtain ⟨n, hn, heq⟩ := h.only _ (hfound ▸ Option.some_ne_none defined)
    obtain rfl : name = n := v.name_injective hfresh hn heq
    rw [heq, h.found name hfresh, hnone] at hfound
    cases hfound

/-- The mark of the scope that a distance leads to; a global one has none. -/
def Variation.markAt (marks : List Bool) : Option Nat → Bool
  | some distance => marks[distance]?.getD false
  | none => false

/-- A name is found at the same distance, changed if it leads to a marked scope. -/
theorem Scopes.Twin.findIdx?_eq {marks : List Bool} {ss ss' : List Scope}
    (h : Scopes.Twin v marks ss ss') {name : String} (hfresh : v.Fresh name) :
    ss'.findIdx? (fun s => s.contains
        (v.name (Variation.markAt marks (ss.findIdx? fun s => s.contains name)) name)) =
      ss.findIdx? fun s => s.contains name := by
  induction h with
  | nil => rfl
  | @cons mark marks s s' ss ss' hs _ ih =>
    rw [List.findIdx?_cons, List.findIdx?_cons]
    cases hhere : s.contains name with
    | true =>
      have hthere : s'.contains (v.name mark name) = true := by
        rw [Std.TreeMap.contains_eq_isSome_getElem?] at hhere ⊢
        rw [hs.found name hfresh, hhere]
      exact if_pos hthere
    | false =>
      have hsame : Variation.markAt (mark :: marks)
          ((ss.findIdx? fun s => s.contains name).map (· + 1)) =
            Variation.markAt marks (ss.findIdx? fun s => s.contains name) := by
        cases ss.findIdx? fun s => s.contains name <;> rfl
      -- no writing of the name is in this scope, whichever mark the distance will lead to
      have hthere : ∀ marked, s'.contains (v.name marked name) = false := fun marked => by
        rw [Std.TreeMap.contains_eq_isSome_getElem?,
          hs.absent hfresh (Scope.getElem?_of_contains hhere)]
        rfl
      simp only [Bool.false_eq_true, if_false, hsame, hthere, ih]

/-! ## Walks -/

/-- The walks are in the same state but for the writing. -/
structure Walk.Twin (v : Variation) (marks : List Bool) (w w' : Walk) : Prop where
  scopes : Scopes.Twin v marks w.scopes w'.scopes
  table : ∀ i i', v.known i i' → w'.table[i']? = w.table[i]?
  errors : w'.errors.length = w.errors.length
  context : w'.context = w.context

namespace Walk.Twin

variable {marks : List Bool} {w w' : Walk} (h : w.Twin v marks w')

include h

/-- Both walks report an error, each at its own token. -/
theorem report (cause : ScopeCause) (token token' : Token) :
    (w.report cause token).Twin v marks (w'.report cause token') :=
  ⟨h.scopes, h.table, by simp [Walk.report, h.errors], h.context⟩

/-- Both walks report an error or neither does. -/
theorem reportIf (broken : Bool) (cause : ScopeCause) (token token' : Token) :
    (w.reportIf broken cause token).Twin v marks (w'.reportIf broken cause token') := by
  unfold Walk.reportIf
  split
  next => exact h.report cause token token'
  next => exact h

/-- The rule for `super` looks only at the context. -/
theorem checkInherited (keyword keyword' : Token) :
    (w.checkInherited keyword).Twin v marks (w'.checkInherited keyword') := by
  unfold Walk.checkInherited
  rw [h.context]
  split
  next => exact h.report _ keyword keyword'
  next => exact h.report _ keyword keyword'
  next => exact h

/-- The rule for `this` looks only at the context. -/
theorem checkReceiver (keyword keyword' : Token) :
    (w.checkReceiver keyword).Twin v marks (w'.checkReceiver keyword') := by
  unfold Walk.checkReceiver
  rw [h.context]
  split
  next => exact h.report _ keyword keyword'
  next => exact h.reportIf _ _ keyword keyword'

/-- The rule for `return` looks only at the context. -/
theorem checkReturn (keyword keyword' : Token) (hasValue : Bool) :
    (w.checkReturn keyword hasValue).Twin v marks (w'.checkReturn keyword' hasValue) := by
  have hreturn := h.reportIf (w.context.function = .none) .returnOutsideFunction keyword keyword'
  unfold Walk.checkReturn
  rw [h.context]
  exact hreturn.reportIf _ _ keyword keyword'

/-- Both walks may go into the same context. -/
theorem inContext (context : Context) :
    (w.inContext context).Twin v marks (w'.inContext context) :=
  ⟨h.scopes, h.table, h.errors, rfl⟩

/-- Both walks open an empty scope, marked or not. -/
theorem opened (mark : Bool) : w.opened.Twin v (mark :: marks) w'.opened :=
  ⟨.cons (.empty mark) h.scopes, h.table, h.errors, h.context⟩

/-- Both walks enter a name of the innermost scope. -/
theorem enter {name name' : String} (hfresh : v.Fresh name)
    (hname : name' = v.name (marks.headD false) name) (defined : Bool) :
    (w.enter name defined).Twin v marks (w'.enter name' defined) := by
  have hscopes := h.scopes
  unfold Walk.enter
  generalize w.scopes = ss at hscopes
  generalize w'.scopes = ss' at hscopes
  cases hscopes with
  | nil => exact h
  | cons hs hss =>
    exact ⟨.cons (hs.insert hfresh hname defined) hss, h.table, h.errors, h.context⟩

/-- A scope for one name that no declaration makes. -/
theorem openedWith {name : String} (hstays : v.Stays false name) :
    (w.openedWith name).Twin v (false :: marks) (w'.openedWith name) :=
  (h.opened false).enter hstays.fresh hstays.same.symm true

/-- A declaration is reported in both or in neither, for both scopes have the name or lack it. -/
theorem declare {name name' : Token} (hname : v.Names (marks.headD false) name name') :
    (w.declare name).Twin v marks (w'.declare name') :=
  h.enter hname.fresh hname.lexeme false

/-- A name of the innermost scope is defined in both. -/
theorem define {name name' : Token} (hname : v.Names (marks.headD false) name name') :
    (w.define name).Twin v marks (w'.define name') :=
  h.enter hname.fresh hname.lexeme true

/-- Parameters of the innermost scope are defined in both. -/
theorem defineAll {names names' : List Token}
    (hnames : List.Forall₂ (v.Names (marks.headD false)) names names') :
    (w.defineAll names).Twin v marks (w'.defineAll names') := by
  induction hnames generalizing w w' with
  | nil => exact h
  | cons hname _ ih => exact ih ((h.declare hname).define hname)

/-! ### References -/

/-- A reference is found at the same distance. -/
theorem distance?_eq {site : Site} {name name' : Token}
    (hname : v.Names (v.marked marks site) name name')
    (hdistance : v.table[site]? = w.distance? name.lexeme) :
    w'.distance? name'.lexeme = w.distance? name.lexeme := by
  have hmarked : v.marked marks site = Variation.markAt marks (w.distance? name.lexeme) := by
    unfold Variation.marked
    rw [hdistance]
    cases w.distance? name.lexeme <;> rfl
  rw [hname.lexeme, hmarked]
  exact h.scopes.findIdx?_eq hname.fresh

/-- A reference is bound where the scopes are as they were when the part was reached. -/
theorem bind {start : Walk} (hscopes : w.scopes = start.scopes) {site site' : Site}
    {name name' : Token} (hknown : v.known site site')
    (hname : v.Names (v.marked marks site) name name')
    (hdistance : v.table[site]? = start.distance? name.lexeme) :
    (w.bind site name).Twin v marks (w'.bind site' name') := by
  unfold Walk.distance? at hdistance
  rw [← hscopes] at hdistance
  unfold Walk.bind
  rw [h.distance?_eq hname hdistance]
  split
  next d _ =>
    -- `paired` keeps the new entry from falling on another site in one of the writings only
    refine ⟨h.scopes, fun i i' hi => ?_, h.errors, h.context⟩
    have hpaired := v.paired _ _ _ _ hknown hi
    rw [Std.TreeMap.getElem?_insert, Std.TreeMap.getElem?_insert, h.table i i' hi]
    simp only [Nat.compare_eq_eq, hpaired]
  next => exact h

/-- Whether a reference stands in its own initializer is said by the same entry. -/
theorem isPending_eq {site : Site} {name name' : Token}
    (hname : v.Names (v.marked marks site) name name')
    (hdistance : v.table[site]? = w.distance? name.lexeme) :
    w'.isPending name' = w.isPending name := by
  have hscopes := h.scopes
  have hmarked : v.marked marks site = Variation.markAt marks (w.distance? name.lexeme) := by
    unfold Variation.marked
    rw [hdistance]
    cases w.distance? name.lexeme <;> rfl
  unfold Walk.isPending
  unfold Walk.distance? at hmarked
  rw [hname.lexeme, hmarked]
  generalize w.scopes = ss at hscopes
  generalize w'.scopes = ss' at hscopes
  cases hscopes with
  | nil => rfl
  | @cons mark marks s s' ss ss' hs hss =>
    dsimp only
    rw [List.findIdx?_cons]
    cases hhere : s.contains name.lexeme with
    | true =>
      rw [if_pos rfl]
      show decide (s'[v.name mark name.lexeme]? = some false) = _
      rw [hs.found _ hname.fresh]
    | false =>
      have hnone := Scope.getElem?_of_contains hhere
      rw [hs.absent hname.fresh hnone, hnone]

end Walk.Twin

/-- Walks that close a scope stay twins in the scopes around it. -/
theorem Walk.Twin.closed {mark : Bool} {marks : List Bool} {w w' : Walk}
    (h : w.Twin v (mark :: marks) w') :
    Walk.Twin v marks { w with scopes := w.scopes.tail } { w' with scopes := w'.scopes.tail } := by
  have hscopes := h.scopes
  refine ⟨?_, h.table, h.errors, h.context⟩
  generalize w.scopes = ss at hscopes
  generalize w'.scopes = ss' at hscopes
  cases hscopes with
  | cons _ hss => exact hss

/-! ## Parts of a program -/

namespace FunctionDecl

/-- Walks functions, each inside a scope that holds `this`. -/
def walkEach (role : FunctionDecl → FunctionContext) (ds : List FunctionDecl) (w : Walk) : Walk :=
  ds.foldl (fun w d => w.inScopeOf "this" (d.walk (role d))) w

/-- Methods are walked each in the context of its name. -/
theorem walkMethods_eq (ds : List FunctionDecl) (w : Walk) :
    walkMethods ds w = walkEach methodContext ds w := by
  induction ds generalizing w with
  | nil => rfl
  | cons d ds ih => exact ih _

/-- Other members are walked all in one context. -/
theorem walkMembers_eq (ds : List FunctionDecl) (role : FunctionContext) (w : Walk) :
    walkMembers ds role w = walkEach (fun _ => role) ds w := by
  induction ds generalizing w with
  | nil => rfl
  | cons d ds ih => exact ih _

end FunctionDecl

/-- A method is an initializer in both writings or in neither. -/
theorem Alike.methodContext {marks : List Bool} {d d' : FunctionDecl}
    (h : Alike v marks (.function d) (.function d')) : d'.methodContext = d.methodContext := by
  have hany : ∀ d : FunctionDecl, (d.name.any fun name => name.lexeme = initializerName) =
      (d.name.map Token.lexeme).any fun name => name = initializerName := fun d => by
    cases d.name <;> rfl
  unfold FunctionDecl.methodContext
  rw [hany, hany, h.declaration.1]

/-- An expression that may be absent is there in both writings or in neither. -/
theorem Alike.isSome_eq {marks : List Bool} {e e' : Option Expr}
    (h : Alike v marks (.optional e) (.optional e')) : e'.isSome = e.isSome := by
  cases h <;> rfl

/-- Wherever the walk over the root comes by the first piece, walking both pieces keeps walks
twins. -/
def Piece.Walks (v : Variation) (root : Part) (marks : List Bool) : Piece → Piece → Prop
  | .expression e, .expression e' =>
    ∀ w w' ps, Visits root w ps (.expression e) → w.Twin v marks w' →
      (e.walk w).Twin v marks (e'.walk w')
  | .optional e, .optional e' =>
    ∀ w w', (∀ x, e = some x → ∃ ps, Visits root w ps (.expression x)) → w.Twin v marks w' →
      (Expr.walkOption e w).Twin v marks (Expr.walkOption e' w')
  | .expressions es, .expressions es' =>
    ∀ w w' ps, Visits root w ps (.expressions es) → w.Twin v marks w' →
      (Expr.walkAll es w).Twin v marks (Expr.walkAll es' w')
  | .statement s, .statement s' =>
    ∀ w w' ps, Visits root w ps (.statement s) → w.Twin v marks w' →
      (s.walk w).Twin v marks (s'.walk w')
  | .otherwise s, .otherwise s' =>
    ∀ w w', (∀ x, s = some x → ∃ ps, Visits root w ps (.statement x)) → w.Twin v marks w' →
      (Stmt.walkOption s w).Twin v marks (Stmt.walkOption s' w')
  | .statements ss, .statements ss' =>
    ∀ w w' ps, Visits root w ps (.statements ss) → w.Twin v marks w' →
      (Stmt.walkAll ss w).Twin v marks (Stmt.walkAll ss' w')
  | .function d, .function d' =>
    ∀ role w w' ps, Visits root w ps (.function d role) → w.Twin v marks w' →
      (d.walk role w).Twin v marks (d'.walk role w')
  | .functions ds, .functions ds' =>
    ∀ around, marks = false :: around → ∀ role : FunctionDecl → FunctionContext,
      (∀ d d', Alike v marks (.function d) (.function d') → role d' = role d) →
      ∀ w w', (∀ before m after, ds = before ++ m :: after →
        ∃ ps, Visits root ((FunctionDecl.walkEach role before w).openedWith "this") ps
          (.function m (role m))) →
      w.Twin v around w' →
      (FunctionDecl.walkEach role ds w).Twin v around (FunctionDecl.walkEach role ds' w')
  | _, _ => True

/-- The members of one kind of a class, each walked in the same role, if the walk over the root
comes by each of them. -/
theorem Piece.Walks.members {root : Part} {around : List Bool} {ds ds' : List FunctionDecl}
    (h : Piece.Walks v root (false :: around) (.functions ds) (.functions ds'))
    {role : FunctionContext} {w w' : Walk}
    (hvisits : ∀ before m after, ds = before ++ m :: after →
      ∃ ps, Visits root ((FunctionDecl.walkMembers before role w).openedWith "this") ps
        (.function m role))
    (hw : w.Twin v around w') :
    (FunctionDecl.walkMembers ds role w).Twin v around
      (FunctionDecl.walkMembers ds' role w') := by
  rw [FunctionDecl.walkMembers_eq, FunctionDecl.walkMembers_eq]
  refine h around rfl (fun _ => role) (fun _ _ _ => rfl) w w' (fun before m after hds => ?_) hw
  rw [← FunctionDecl.walkMembers_eq]
  exact hvisits before m after hds

/-- Walks over a class and its other writing. -/
theorem ClassDecl.walk_twin {root : Part} {marks : List Bool} {name name' : Token}
    {superclass superclass' : Option Expr}
    {methods methods' classMethods classMethods' getters getters' setters setters' :
      List FunctionDecl}
    (hstays : v.Stays (marks.headD false) name.lexeme) (hname : v.Keeps name name')
    (hsome : superclass'.isSome = superclass.isSome)
    (hsuperclass : Piece.Walks v root marks (.optional superclass) (.optional superclass'))
    (hmethods : Piece.Walks v root (memberMarks superclass.isSome marks) (.functions methods)
      (.functions methods'))
    (hclassMethods : Piece.Walks v root (memberMarks superclass.isSome marks)
      (.functions classMethods) (.functions classMethods'))
    (hgetters : Piece.Walks v root (memberMarks superclass.isSome marks) (.functions getters)
      (.functions getters'))
    (hsetters : Piece.Walks v root (memberMarks superclass.isSome marks) (.functions setters)
      (.functions setters')) :
    Piece.Walks v root marks
      (.statement (.classDecl ⟨name, superclass, methods, classMethods, getters, setters⟩))
      (.statement (.classDecl ⟨name', superclass', methods', classMethods', getters',
        setters'⟩)) := by
  intro w w' ps hvisits hw
  let d : ClassDecl := ⟨name, superclass, methods, classMethods, getters, setters⟩
  let d' : ClassDecl := ⟨name', superclass', methods', classMethods', getters', setters'⟩
  have hnames := hstays.names hname
  have hnamed : (d.named w).Twin v marks (d'.named w') := (hw.declare hnames).define hnames
  have hclause : (d.clauseStart w).Twin v marks (d'.clauseStart w') := by
    have hcontext : d'.classContext = d.classContext := by
      unfold ClassDecl.classContext
      rw [show d'.superclass.isSome = d.superclass.isSome from hsome]
    unfold ClassDecl.clauseStart
    rw [hnamed.context, hcontext]
    exact hnamed.inContext _
  have hbefore := hsuperclass _ _ (fun x hx => ⟨_, hvisits.clause (d := d) hx⟩) hclause
  let around := if superclass.isSome then false :: marks else marks
  have hstart : (d.membersStart w).Twin v around (d'.membersStart w') := by
    unfold ClassDecl.membersStart
    rw [show d'.superclass.isSome = superclass.isSome from hsome]
    show Walk.Twin v (if superclass.isSome then false :: marks else marks)
      (if superclass.isSome then _ else _) _
    split
    next => exact hbefore.openedWith (v.stays_super false)
    next => exact hbefore
  have hmethods : (d.gettersStart w).Twin v around (d'.gettersStart w') := by
    unfold ClassDecl.gettersStart
    rw [FunctionDecl.walkMethods_eq, FunctionDecl.walkMethods_eq]
    refine hmethods around rfl FunctionDecl.methodContext (fun _ _ h => h.methodContext) _ _
      (fun before m after h => ⟨⟨.receiver m, none⟩ :: d.places ps, ?_⟩) hstart
    rw [← FunctionDecl.walkMethods_eq]
    exact hvisits.member (.method h)
  -- the kinds of members are walked one after the other, each from where the kind before ended
  have hgetters : (d.settersStart w).Twin v around (d'.settersStart w') :=
    hgetters.members (fun _ _ _ h => ⟨_, hvisits.member (.getter h)⟩) hmethods
  have hsetters : (d.classMethodsStart w).Twin v around (d'.classMethodsStart w') := by
    have hwalked := hsetters.members (fun _ _ _ h => ⟨_, hvisits.member (.setter h)⟩) hgetters
    unfold ClassDecl.classMethodsStart
    dsimp only
    rw [show Walk.context (FunctionDecl.walkMembers d'.setters .method (d'.settersStart w')) = _
      from hwalked.context]
    exact hwalked.inContext _
  have hclassMethods : (FunctionDecl.walkMembers d.classMethods .classMethod
      (d.classMethodsStart w)).Twin v around
      (FunctionDecl.walkMembers d'.classMethods .classMethod (d'.classMethodsStart w')) :=
    hclassMethods.members (fun _ _ _ h => ⟨_, hvisits.member (.classMethod h)⟩) hsetters
  cases superclass with
  | none =>
    cases superclass' with
    | none =>
      exact ⟨hclassMethods.scopes, hclassMethods.table, hclassMethods.errors, hnamed.context⟩
    | some clause => cases hsome
  | some clause =>
    cases superclass' with
    | none => cases hsome
    | some clause' =>
      have hclosed := hclassMethods.closed
      exact ⟨hclosed.scopes, hclosed.table, hclosed.errors, hnamed.context⟩

/-! ## Walks by every part -/

namespace Piece.Walks

variable {root : Part} {marks : List Bool}

section Expressions

variable {site site' : Site} {t t' keyword keyword' method method' : Token}

/-- A variable is found at the same distance, and so is entered with it. -/
theorem name (hroot : Accepted v.table root) (hknown : v.known site site')
    (hname : v.Names (v.marked marks site) t t') :
    Piece.Walks v root marks (.expression (.variable site t))
      (.expression (.variable site' t')) := by
  intro w w' ps hvisits hw
  have hdistance := hvisits.known hroot rfl
  show Walk.Twin v _ (Walk.bind _ _ _) (Walk.bind _ _ _)
  rw [hw.isPending_eq hname hdistance]
  exact (hw.reportIf _ _ _ _).bind (reportIf_through ..).scopes hknown hname hdistance

/-- The value is walked first. -/
theorem assign {value value' : Expr} (hroot : Accepted v.table root) (hknown : v.known site site')
    (hname : v.Names (v.marked marks site) t t')
    (hvalue : Piece.Walks v root marks (.expression value) (.expression value')) :
    Piece.Walks v root marks (.expression (.assign site t value))
      (.expression (.assign site' t' value')) := by
  intro w w' ps hvisits hw
  exact (hvalue w w' ps hvisits.assignValue hw).bind (Expr.walk_through _ w).scopes hknown hname
    (hvisits.known hroot rfl)

/-- The scope of `this` is found at the same distance. -/
theorem receiver (hroot : Accepted v.table root) (hknown : v.known site site')
    (hname : v.Names (v.marked marks site) keyword keyword') :
    Piece.Walks v root marks (.expression (.receiver site keyword))
      (.expression (.receiver site' keyword')) := by
  intro w w' ps hvisits hw
  exact (hw.checkReceiver _ _).bind (checkReceiver_through ..).scopes hknown hname
    (hvisits.known hroot rfl)

/-- The scope of `super` is found at the same distance. -/
theorem inherited (hroot : Accepted v.table root) (hknown : v.known site site')
    (hname : v.Names (v.marked marks site) keyword keyword') :
    Piece.Walks v root marks (.expression (.inherited site keyword method))
      (.expression (.inherited site' keyword' method')) := by
  intro w w' ps hvisits hw
  exact (hw.checkInherited _ _).bind (checkInherited_through ..).scopes hknown hname
    (hvisits.known hroot rfl)

/-- Which of the branches is evaluated is left open: both are walked. -/
theorem choice {condition condition' whenTrue whenTrue' whenFalse whenFalse' : Expr}
    (hcondition : Piece.Walks v root marks (.expression condition) (.expression condition'))
    (htrue : Piece.Walks v root marks (.expression whenTrue) (.expression whenTrue'))
    (hfalse : Piece.Walks v root marks (.expression whenFalse) (.expression whenFalse')) :
    Piece.Walks v root marks (.expression (.conditional condition whenTrue whenFalse))
      (.expression (.conditional condition' whenTrue' whenFalse')) := by
  intro w w' ps hvisits hw
  have hcondition := hcondition w w' ps hvisits.choiceCondition hw
  exact hfalse _ _ ps hvisits.choiceFalse (htrue _ _ ps hvisits.choiceTrue hcondition)

/-- An expression that is there. -/
theorem present {e e' : Expr} (he : Piece.Walks v root marks (.expression e) (.expression e')) :
    Piece.Walks v root marks (.optional (some e)) (.optional (some e')) := by
  intro w w' hvisits hw
  obtain ⟨ps, hvisits⟩ := hvisits _ rfl
  exact he w w' ps hvisits hw

end Expressions

section Functions

/-- A function opens the scope of its parameters in its own context. -/
theorem parts {name name' : Option Token} {keyword keyword' : Token}
    {parameters parameters' : List Token} {body body' : List Stmt} {mark : Bool}
    (hparameters : List.Forall₂ (v.Names mark) parameters parameters')
    (hbody : Piece.Walks v root (mark :: marks) (.statements body) (.statements body')) :
    Piece.Walks v root marks (.function ⟨name, keyword, parameters, body⟩)
      (.function ⟨name', keyword', parameters', body'⟩) := by
  intro role w w' ps hvisits hw
  have hinside := hw.inContext (w.context.inFunction role)
  have hcontext : w.context.inFunction role = w'.context.inFunction role := by rw [hw.context]
  have hstart := (hinside.opened mark).defineAll hparameters
  -- the body's walk ends in the context it began in; that of the caller is put back
  have hafter := (hbody _ _ _ hvisits.body hstart).closed
  rw [hcontext] at hafter
  exact ⟨hafter.scopes, hafter.table, hafter.errors, hw.context⟩

/-- Each member is walked in a scope of its own that holds `this`. -/
theorem nextFunction {d d' : FunctionDecl} {ds ds' : List FunctionDecl}
    (hd : Alike v marks (.function d) (.function d'))
    (hfirst : Piece.Walks v root marks (.function d) (.function d'))
    (hmore : Piece.Walks v root marks (.functions ds) (.functions ds')) :
    Piece.Walks v root marks (.functions (d :: ds)) (.functions (d' :: ds')) := by
  intro around hmarks role hrole w w' hvisits hw
  subst hmarks
  obtain ⟨ps, hvisited⟩ := hvisits [] d ds rfl
  have hstep : Walk.Twin v (false :: around) (d.walk (role d) (w.openedWith "this"))
      (d'.walk (role d') (w'.openedWith "this")) := by
    rw [hrole d d' hd]
    exact hfirst (role d) _ _ ps hvisited (hw.openedWith (v.stays_this false))
  refine hmore around rfl role hrole _ _ (fun before m after h => ?_) hstep.closed
  exact hvisits (_ :: before) m after (congrArg _ h)

/-- The name of a function is declared before the function is walked; of an accepted program every
function that is declared has one. -/
theorem functionDecl {d d' : FunctionDecl} (hroot : Accepted v.table root)
    (hstays : v.Stays (marks.headD false) ((d.name.map Token.lexeme).getD ""))
    (hd : Alike v marks (.function d) (.function d'))
    (hwalks : Piece.Walks v root marks (.function d) (.function d')) :
    Piece.Walks v root marks (.statement (.functionDecl d)) (.statement (.functionDecl d')) := by
  intro w w' ps hvisits hw
  obtain ⟨⟨name, hname, -⟩, -⟩ := (hvisits.fits hroot).tidy
  cases hd with
  | parts mark hkeeps =>
    cases hkeeps with
    | none => cases hname
    | some hkeeps =>
      cases hname
      have hnames := Variation.Stays.names (t := name) hstays hkeeps
      exact hwalks .function _ _ ps (hvisits.declaredFunction rfl)
        ((hw.declare hnames).define hnames)

end Functions

section Statements

variable {name name' keyword keyword' : Token}

/-- The rule for `break` looks only at the context. -/
theorem breakLoop : Piece.Walks v root marks (.statement (.breakLoop keyword))
    (.statement (.breakLoop keyword')) := by
  intro w w' ps _ hw
  show Walk.Twin v _ (Walk.reportIf _ _ _ _) (Walk.reportIf _ _ _ _)
  rw [hw.context]
  exact hw.reportIf _ _ _ _

/-- The rule for `continue` looks only at the context. -/
theorem continueLoop : Piece.Walks v root marks (.statement (.continueLoop keyword))
    (.statement (.continueLoop keyword')) := by
  intro w w' ps _ hw
  show Walk.Twin v _ (Walk.reportIf _ _ _ _) (Walk.reportIf _ _ _ _)
  rw [hw.context]
  exact hw.reportIf _ _ _ _

/-- The parts of an `if` are walked in turn, in the same scopes. -/
theorem conditional {condition condition' : Expr} {whenTrue whenTrue' : Stmt}
    {whenFalse whenFalse' : Option Stmt}
    (hcondition : Piece.Walks v root marks (.expression condition) (.expression condition'))
    (htrue : Piece.Walks v root marks (.statement whenTrue) (.statement whenTrue'))
    (hfalse : Piece.Walks v root marks (.otherwise whenFalse) (.otherwise whenFalse')) :
    Piece.Walks v root marks (.statement (.conditional condition whenTrue whenFalse))
      (.statement (.conditional condition' whenTrue' whenFalse')) := by
  intro w w' ps hvisits hw
  have hcondition := hcondition w w' ps hvisits.condition hw
  refine hfalse _ _ (fun x hx => ?_) (htrue _ _ ps hvisits.whenTrue hcondition)
  subst hx
  exact ⟨ps, hvisits.whenFalse⟩

/-- A `return` with a value is checked in another way than one without. -/
theorem returnValue {value value' : Option Expr}
    (hvalue : Alike v marks (.optional value) (.optional value'))
    (hwalks : Piece.Walks v root marks (.optional value) (.optional value')) :
    Piece.Walks v root marks (.statement (.returnValue keyword value))
      (.statement (.returnValue keyword' value')) := by
  intro w w' ps hvisits hw
  show Walk.Twin v _ (Expr.walkOption _ (Walk.checkReturn _ _ _))
    (Expr.walkOption _ (Walk.checkReturn _ _ _))
  rw [hvalue.isSome_eq]
  refine hwalks _ _ (fun x hx => ?_) (hw.checkReturn _ _ _)
  subst hx
  exact ⟨ps, hvisits.returnedValue⟩

/-- A constant is declared before its value is walked, and defined after. -/
theorem constant {value value' : Expr} (hname : v.Names (marks.headD false) name name')
    (hvalue : Piece.Walks v root marks (.expression value) (.expression value')) :
    Piece.Walks v root marks (.statement (.constant name value))
      (.statement (.constant name' value')) := by
  intro w w' ps hvisits hw
  exact (hvalue _ _ _ hvisits.constantValue (hw.declare hname)).define hname

/-- A variable is declared before its value is walked, and defined after. -/
theorem var {value value' : Option Expr} (hname : v.Names (marks.headD false) name name')
    (hvalue : Piece.Walks v root marks (.optional value) (.optional value')) :
    Piece.Walks v root marks (.statement (.var name value)) (.statement (.var name' value')) := by
  intro w w' ps hvisits hw
  refine (hvalue _ _ (fun x hx => ?_) (hw.declare hname)).define hname
  subst hx
  exact ⟨_, hvisits.varValue⟩

/-- The body is walked in the context of the loop, the increment again in that around it. -/
theorem loop {condition condition' : Expr} {body body' : Stmt} {increment increment' : Option Expr}
    (hcondition : Piece.Walks v root marks (.expression condition) (.expression condition'))
    (hbody : Piece.Walks v root marks (.statement body) (.statement body'))
    (hincrement : Piece.Walks v root marks (.optional increment) (.optional increment')) :
    Piece.Walks v root marks (.statement (.loop condition body increment))
      (.statement (.loop condition' body' increment')) := by
  intro w w' ps hvisits hw
  have hcondition := hcondition w w' ps hvisits.loopCondition hw
  have hbody := hbody _ _ ps hvisits.loopBody (hcondition.inContext _)
  show Walk.Twin v marks _ (Expr.walkOption increment'
    ((condition'.walk w').within (condition'.walk w').context.inLoop body'.walk))
  rw [hcondition.context]
  refine hincrement _ _ (fun x hx => ?_)
    ⟨hbody.scopes, hbody.table, hbody.errors, hcondition.context⟩
  subst hx
  exact ⟨ps, hvisits.loopIncrement⟩

/-- A branch that is there. -/
theorem someOtherwise {s s' : Stmt}
    (hs : Piece.Walks v root marks (.statement s) (.statement s')) :
    Piece.Walks v root marks (.otherwise (some s)) (.otherwise (some s')) := by
  intro w w' hvisits hw
  obtain ⟨ps, hvisits⟩ := hvisits _ rfl
  exact hs w w' ps hvisits hw

end Statements

end Piece.Walks

/-- Walking the two writings of a part of an accepted program keeps walks twins. -/
theorem Alike.walks {root : Part} (hroot : Accepted v.table root) {marks : List Bool}
    {p p' : Piece} (h : Alike v marks p p') : Piece.Walks v root marks p p' := by
  induction h with
  -- `hw` says that the walks are twins where the part begins; it is handed from part to part in the
  -- order of the walk
  | literal value => exact fun w w' ps _ hw => hw
  | name hknown hname => exact .name hroot hknown hname
  | assign hknown hname _ ih => exact .assign hroot hknown hname ih
  | receiver hknown hname => exact .receiver hroot hknown hname
  | inherited hknown hname _ => exact .inherited hroot hknown hname
  | group _ ih => exact fun w w' ps hvisits hw => ih w w' ps hvisits.groupInner hw
  | unary _ _ ih => exact fun w w' ps hvisits hw => ih w w' ps hvisits.unaryOperand hw
  | binary _ _ _ ihl ihr =>
    exact fun w w' ps hvisits hw =>
      ihr _ _ ps hvisits.binaryRight (ihl w w' ps hvisits.binaryLeft hw)
  | logical _ _ _ ihl ihr =>
    exact fun w w' ps hvisits hw =>
      ihr _ _ ps hvisits.logicalRight (ihl w w' ps hvisits.logicalLeft hw)
  | choice _ _ _ ihc iht ihf => exact .choice ihc iht ihf
  | call _ _ _ ihc iha =>
    exact fun w w' ps hvisits hw =>
      iha _ _ ps hvisits.callArguments (ihc w w' ps hvisits.callee hw)
  | get _ _ ih => exact fun w w' ps hvisits hw => ih w w' ps hvisits.getObject hw
  | set _ _ _ iho ihv =>
    exact fun w w' ps hvisits hw =>
      ihv _ _ ps hvisits.setValue (iho w w' ps hvisits.setObject hw)
  | functionLiteral _ ih =>
    exact fun w w' ps hvisits hw => ih .function w w' ps hvisits.literalFunction hw
  | absent => exact fun w w' _ hw => hw
  | present _ ih => exact .present ih
  | noExpressions => exact fun w w' ps _ hw => hw
  | nextExpression _ _ ihe ihes =>
    exact fun w w' ps hvisits hw =>
      ihes _ _ ps hvisits.nextExpressions (ihe w w' ps hvisits.firstExpression hw)
  | parts _ _ _ hparameters _ ih => exact .parts hparameters ih
  | noFunctions => exact fun around _ role _ w w' _ hw => hw
  | nextFunction hd _ ihd ihds => exact .nextFunction hd ihd ihds
  | classDecl hstays hname hsuperclass _ _ _ _ ihs ihm ihc ihg iht =>
    exact ClassDecl.walk_twin hstays hname hsuperclass.isSome_eq ihs ihm ihc ihg iht
  | block mark _ ih =>
    -- the mark says whether the scope of the block is one that is renamed
    exact fun w w' ps hvisits hw => (ih _ _ _ hvisits.block (hw.opened mark)).closed
  | breakLoop _ => exact .breakLoop
  | continueLoop _ => exact .continueLoop
  | empty => exact fun w w' ps _ hw => hw
  | expressionStatement _ ih =>
    exact fun w w' ps hvisits hw => ih w w' ps hvisits.expressionValue hw
  | functionDecl hstays hd ih => exact .functionDecl hroot hstays hd ih
  | conditional _ _ _ ihc iht ihf => exact .conditional ihc iht ihf
  | input _ _ ih => exact fun w w' ps hvisits hw => ih w w' ps hvisits.inputTarget hw
  | print _ _ ih => exact fun w w' ps hvisits hw => ih w w' ps hvisits.printValue hw
  | returnValue _ hvalue ih => exact .returnValue hvalue ih
  | constant hname _ ih => exact .constant hname ih
  | var hname _ ih => exact .var hname ih
  | loop _ _ _ ihc ihb ihi => exact .loop ihc ihb ihi
  | noOtherwise => exact fun w w' _ hw => hw
  | someOtherwise _ ih => exact .someOtherwise ih
  | noStatements => exact fun w w' ps _ hw => hw
  | nextStatement _ _ ihs ihss =>
    exact fun w w' ps hvisits hw =>
      ihss _ _ ps hvisits.nextStatements (ihs w w' ps hvisits.firstStatement hw)

/-! ## References -/

/-- The sites of the references of a piece. -/
def Piece.sites : Piece → List Site
  | .expression e => sitesOf e.references
  | .optional e => sitesOf (Expr.referencesOption e)
  | .expressions es => sitesOf (Expr.referencesAll es)
  | .statement s => sitesOf s.references
  | .otherwise s => sitesOf (Stmt.referencesOption s)
  | .statements ss => sitesOf (Stmt.referencesAll ss)
  | .function d => sitesOf d.references
  | .functions ds => sitesOf (FunctionDecl.referencesAll ds)

/-- Two parts with the same references each have the same in a row. -/
theorem forall₂_sitesOf_append {R : Site → Site → Prop} {rs ss rs' ss' : List Reference}
    (h : List.Forall₂ R (sitesOf rs) (sitesOf rs'))
    (h' : List.Forall₂ R (sitesOf ss) (sitesOf ss')) :
    List.Forall₂ R (sitesOf (rs ++ ss)) (sitesOf (rs' ++ ss')) := by
  rw [sitesOf_append, sitesOf_append]
  exact List.rel_append h h'

/-- Both writings have the same references in the same order. -/
theorem Alike.sites {marks : List Bool} {p p' : Piece} (h : Alike v marks p p') :
    List.Forall₂ v.known p.sites p'.sites := by
  induction h with
  | literal | absent | noExpressions | noFunctions | breakLoop | continueLoop | empty | noOtherwise
  | noStatements => exact .nil
  | name hknown | receiver hknown | inherited hknown => exact .cons hknown .nil
  | assign hknown _ _ ih => exact .cons hknown ih
  | group _ ih | unary _ _ ih | get _ _ ih | functionLiteral _ ih | present _ ih
  | parts _ _ _ _ _ ih | block _ _ ih | expressionStatement _ ih | functionDecl _ _ ih
  | input _ _ ih | print _ _ ih | returnValue _ _ ih | constant _ _ ih | var _ _ ih
  | someOtherwise _ ih => exact ih
  | binary _ _ _ ih ih' | logical _ _ _ ih ih' | call _ _ _ ih ih' | set _ _ _ ih ih'
  | nextExpression _ _ ih ih' | nextFunction _ _ ih ih' | nextStatement _ _ ih ih' =>
    exact forall₂_sitesOf_append ih ih'
  | choice _ _ _ ih ih' ih'' | conditional _ _ _ ih ih' ih'' | loop _ _ _ ih ih' ih'' =>
    exact forall₂_sitesOf_append (forall₂_sitesOf_append ih ih') ih''
  | classDecl _ _ _ _ _ _ _ ihs ihm ihc ihg iht =>
    exact forall₂_sitesOf_append
      (forall₂_sitesOf_append (forall₂_sitesOf_append (forall₂_sitesOf_append ihs ihm) ihg) iht) ihc

end Lox
