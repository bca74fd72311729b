import Lox.Resolution

/-!
# The tokens that errors can name

A tree keeps tokens for the errors that resolving and running it may meet. `e.Names P` says that `P`
holds of all of them: keywords, operators, the names of references and properties, and the closing
parentheses of calls. The names that declarations introduce are not among them, since no error
names these; the stored name of a setter is one. What resolving has against a tree names such a
token (`Stmt.walkAll_blames`, `Expr.walk_blames`).
-/

namespace Lox

mutual

/-- Errors about the expression name only tokens of which `P` holds. -/
def Expr.Names (P : Token → Prop) : Expr → Prop
  | .literal _ => True
  | .variable _ name => P name
  | .assign _ name value => P name ∧ value.Names P
  | .receiver _ keyword => P keyword
  | .inherited _ keyword method => P keyword ∧ P method
  | .group inner => inner.Names P
  | .unary operator operand => P operator ∧ operand.Names P
  | .binary left operator right | .logical left operator right =>
    left.Names P ∧ P operator ∧ right.Names P
  | .conditional condition whenTrue whenFalse =>
    condition.Names P ∧ whenTrue.Names P ∧ whenFalse.Names P
  | .call callee paren arguments => callee.Names P ∧ P paren ∧ Expr.NamesAll P arguments
  | .get object name => object.Names P ∧ P name
  | .set object name value => object.Names P ∧ P name ∧ value.Names P
  | .function d => d.Names P

/-- Errors about the expressions name only tokens of which `P` holds. -/
def Expr.NamesAll (P : Token → Prop) : List Expr → Prop
  | [] => True
  | e :: es => e.Names P ∧ Expr.NamesAll P es

/-- Errors about an expression that may be absent name only tokens of which `P` holds. -/
def Expr.NamesOption (P : Token → Prop) : Option Expr → Prop
  | none => True
  | some e => e.Names P

/-- Errors about the statement name only tokens of which `P` holds. -/
def Stmt.Names (P : Token → Prop) : Stmt → Prop
  | .block body => Stmt.NamesAll P body
  | .breakLoop keyword | .continueLoop keyword => P keyword
  | .classDecl d => d.Names P
  | .empty => True
  | .expression value => value.Names P
  | .functionDecl d => d.Names P
  | .conditional condition whenTrue whenFalse =>
    condition.Names P ∧ whenTrue.Names P ∧ Stmt.NamesOption P whenFalse
  | .input keyword target => P keyword ∧ target.Names P
  | .print keyword value => P keyword ∧ value.Names P
  | .returnValue keyword value => P keyword ∧ Expr.NamesOption P value
  | .constant _ value => value.Names P
  | .var _ value => Expr.NamesOption P value
  | .loop condition body increment =>
    condition.Names P ∧ body.Names P ∧ Expr.NamesOption P increment

/-- Errors about the statements name only tokens of which `P` holds. -/
def Stmt.NamesAll (P : Token → Prop) : List Stmt → Prop
  | [] => True
  | s :: ss => s.Names P ∧ Stmt.NamesAll P ss

/-- Errors about a statement that may be absent name only tokens of which `P` holds. -/
def Stmt.NamesOption (P : Token → Prop) : Option Stmt → Prop
  | none => True
  | some s => s.Names P

/-- Errors about the body of the function name only tokens of which `P` holds. -/
def FunctionDecl.Names (P : Token → Prop) : FunctionDecl → Prop
  | ⟨_, _, _, body⟩ => Stmt.NamesAll P body

/-- Errors about the functions name only tokens of which `P` holds. -/
def FunctionDecl.NamesAll (P : Token → Prop) : List FunctionDecl → Prop
  | [] => True
  | d :: ds => d.Names P ∧ FunctionDecl.NamesAll P ds

/-- Errors about the class name only tokens of which `P` holds. -/
def ClassDecl.Names (P : Token → Prop) : ClassDecl → Prop
  | ⟨name, superclass, methods, classMethods, getters, setters⟩ =>
    P name ∧ Expr.NamesOption P superclass ∧ FunctionDecl.NamesAll P methods
      ∧ FunctionDecl.NamesAll P classMethods ∧ FunctionDecl.NamesAll P getters
      ∧ FunctionDecl.NamesAll P setters

end

variable {P : Token → Prop}

/-- What errors about a function may name is in its body. -/
theorem FunctionDecl.Names.body {d : FunctionDecl} (h : d.Names P) : Stmt.NamesAll P d.body := by
  obtain ⟨name, keyword, parameters, body⟩ := d
  exact h

/-- What is said of functions in a row is said of each. -/
theorem FunctionDecl.namesAll_iff {ds : List FunctionDecl} :
    FunctionDecl.NamesAll P ds ↔ ∀ d ∈ ds, d.Names P := by
  induction ds with
  | nil => simp [FunctionDecl.NamesAll]
  | cons d ds ih => simp [FunctionDecl.NamesAll, ih]

/-- An error about the superclass may name the class. -/
theorem ClassDecl.Names.name {d : ClassDecl} (h : d.Names P) : P d.name := by
  obtain ⟨name, superclass, methods, classMethods, getters, setters⟩ := d
  exact h.1

/-- Errors about the clause of the superclass name tokens of which `P` holds. -/
theorem ClassDecl.Names.superclass {d : ClassDecl} (h : d.Names P) :
    Expr.NamesOption P d.superclass := by
  obtain ⟨name, superclass, methods, classMethods, getters, setters⟩ := d
  exact h.2.1

/-- The members of a class that errors name well, of each kind. -/
theorem ClassDecl.Names.members {d : ClassDecl} (h : d.Names P) :
    (∀ m ∈ d.methods, m.Names P) ∧ (∀ m ∈ d.classMethods, m.Names P) ∧
      (∀ m ∈ d.getters, m.Names P) ∧ ∀ m ∈ d.setters, m.Names P := by
  obtain ⟨name, superclass, methods, classMethods, getters, setters⟩ := d
  obtain ⟨_, _, hm, hc, hg, hs⟩ := h
  exact ⟨FunctionDecl.namesAll_iff.mp hm, FunctionDecl.namesAll_iff.mp hc,
    FunctionDecl.namesAll_iff.mp hg, FunctionDecl.namesAll_iff.mp hs⟩

/-! ## What resolving has against a tree -/

namespace Walk

/-- The errors that the walk has met name only tokens of which `P` holds. -/
def Blames (P : Token → Prop) (w : Walk) : Prop :=
  ∀ e ∈ w.errors, P e.token

variable {w : Walk}

/-- Only the errors of a walk matter. -/
theorem Blames.of_errors {w' : Walk} (h : w.Blames P) (he : w'.errors = w.errors) : w'.Blames P :=
  fun e hmem => h e (he ▸ hmem)

/-- A report names the token that it is given. -/
theorem Blames.report {cause : ScopeCause} {token : Token} (h : w.Blames P) (htoken : P token) :
    (w.report cause token).Blames P := by
  intro e hmem
  rcases List.mem_append.mp hmem with hold | hnew
  · exact h e hold
  · rw [List.mem_singleton.mp hnew]
    exact htoken

/-- A report that may be left out names the token that it is given. -/
theorem Blames.reportIf {broken : Bool} {cause : ScopeCause} {token : Token} (h : w.Blames P)
    (htoken : P token) : (w.reportIf broken cause token).Blames P := by
  unfold Walk.reportIf
  split
  next => exact h.report htoken
  next => exact h

/-- Entering a name reports nothing. -/
theorem Blames.enter {name : String} {defined : Bool} (h : w.Blames P) :
    (w.enter name defined).Blames P := by
  refine h.of_errors ?_
  unfold Walk.enter
  split <;> rfl

/-- Defining parameters reports nothing. -/
theorem Blames.defineAll {names : List Token} (h : w.Blames P) : (w.defineAll names).Blames P := by
  unfold Walk.defineAll
  induction names generalizing w with
  | nil => exact h
  | cons name names ih => exact ih h.enter.enter

/-- Entering a distance reports nothing. -/
theorem Blames.bind {site : Site} {name : Token} (h : w.Blames P) :
    (w.bind site name).Blames P := by
  refine h.of_errors ?_
  unfold Walk.bind
  split <;> rfl

/-- The rule for `this` names its keyword. -/
theorem Blames.checkReceiver {keyword : Token} (h : w.Blames P) (hk : P keyword) :
    (w.checkReceiver keyword).Blames P := by
  unfold Walk.checkReceiver
  split
  next => exact h.report hk
  next => exact h.reportIf hk

/-- The rule for `super` names its keyword. -/
theorem Blames.checkInherited {keyword : Token} (h : w.Blames P) (hk : P keyword) :
    (w.checkInherited keyword).Blames P := by
  unfold Walk.checkInherited
  split
  next => exact h.report hk
  next => exact h.report hk
  next => exact h

/-- Opening a scope or changing the context for some steps does not change what errors name. -/
theorem Blames.inScope {steps : Walk → Walk} (h : w.Blames P)
    (hsteps : ∀ w : Walk, w.Blames P → (steps w).Blames P) : (w.inScope steps).Blames P :=
  hsteps _ (h.of_errors rfl)

/-- What is reported inside a scope stays reported. -/
theorem Blames.inScopeOf {name : String} {steps : Walk → Walk} (h : w.Blames P)
    (hsteps : ∀ w : Walk, w.Blames P → (steps w).Blames P) : (w.inScopeOf name steps).Blames P :=
  h.inScope fun _ hw => hsteps _ hw.enter

/-- What is reported inside a context stays reported. -/
theorem Blames.within {context : Context} {steps : Walk → Walk} (h : w.Blames P)
    (hsteps : ∀ w : Walk, w.Blames P → (steps w).Blames P) : (w.within context steps).Blames P :=
  hsteps _ (h.of_errors rfl)

/-- The members of a class report in turn. -/
theorem Blames.inClass {derived : Bool} {instanceMembers classMembers : Walk → Walk}
    (h : w.Blames P) (hi : ∀ w : Walk, w.Blames P → (instanceMembers w).Blames P)
    (hc : ∀ w : Walk, w.Blames P → (classMembers w).Blames P) :
    (w.inClass derived instanceMembers classMembers).Blames P := by
  unfold Walk.inClass
  cases derived with
  | true => exact h.inScopeOf fun w hw => (hi w hw).within hc
  | false => exact (hi w h).within hc

end Walk

open Walk

mutual

/-- A walk over an expression reports errors about its tokens only. -/
theorem Expr.walk_blames : ∀ (e : Expr) {w : Walk}, e.Names P → w.Blames P → (e.walk w).Blames P
  | .literal _, _, _, hw => hw
  | .variable _ _, _, h, hw => (hw.reportIf h).bind
  | .assign _ _ value, _, h, hw => (value.walk_blames h.2 hw).bind
  | .receiver _ _, _, h, hw => (hw.checkReceiver h).bind
  | .inherited _ _ _, _, h, hw => (hw.checkInherited h.1).bind
  | .group inner, _, h, hw => inner.walk_blames h hw
  | .unary _ operand, _, h, hw => operand.walk_blames h.2 hw
  | .binary left _ right, _, h, hw => right.walk_blames h.2.2 (left.walk_blames h.1 hw)
  | .logical left _ right, _, h, hw => right.walk_blames h.2.2 (left.walk_blames h.1 hw)
  | .conditional condition whenTrue whenFalse, _, h, hw =>
    whenFalse.walk_blames h.2.2 (whenTrue.walk_blames h.2.1 (condition.walk_blames h.1 hw))
  | .call callee _ arguments, _, h, hw =>
    Expr.walkAll_blames arguments h.2.2 (callee.walk_blames h.1 hw)
  | .get object _, _, h, hw => object.walk_blames h.1 hw
  | .set object _ value, _, h, hw => value.walk_blames h.2.2 (object.walk_blames h.1 hw)
  | .function d, _, h, hw => d.walk_blames h hw

theorem Expr.walkAll_blames : ∀ (es : List Expr) {w : Walk}, Expr.NamesAll P es → w.Blames P →
    (Expr.walkAll es w).Blames P
  | [], _, _, hw => hw
  | e :: es, _, h, hw => Expr.walkAll_blames es h.2 (e.walk_blames h.1 hw)

theorem Expr.walkOption_blames : ∀ (e : Option Expr) {w : Walk}, Expr.NamesOption P e →
    w.Blames P → (Expr.walkOption e w).Blames P
  | none, _, _, hw => hw
  | some e, _, h, hw => e.walk_blames h hw

/-- A walk over a statement reports errors about its tokens only. -/
theorem Stmt.walk_blames : ∀ (s : Stmt) {w : Walk}, s.Names P → w.Blames P → (s.walk w).Blames P
  | .block body, _, h, hw => hw.inScope fun _ hw => Stmt.walkAll_blames body h hw
  | .breakLoop _, _, h, hw => hw.reportIf h
  | .continueLoop _, _, h, hw => hw.reportIf h
  | .classDecl d, _, h, hw => d.walk_blames h hw
  | .empty, _, _, hw => hw
  | .expression value, _, h, hw => value.walk_blames h hw
  | .functionDecl d, w, h, hw => by
    have hname : Blames P (d.name.elim w fun name => (w.declare name).define name) := by
      cases d.name with
      | none => exact hw
      | some name => exact hw.enter.enter
    exact d.walk_blames h hname
  | .conditional condition whenTrue whenFalse, _, h, hw =>
    Stmt.walkOption_blames whenFalse h.2.2
      (whenTrue.walk_blames h.2.1 (condition.walk_blames h.1 hw))
  | .input _ target, _, h, hw => target.walk_blames h.2 hw
  | .print _ value, _, h, hw => value.walk_blames h.2 hw
  | .returnValue _ value, _, h, hw =>
    Expr.walkOption_blames value h.2 ((hw.reportIf h.1).reportIf h.1)
  | .constant _ value, _, h, hw => (value.walk_blames h hw.enter).enter
  | .var _ value, _, h, hw => (Expr.walkOption_blames value h hw.enter).enter
  | .loop condition body increment, _, h, hw =>
    Expr.walkOption_blames increment h.2.2
      ((condition.walk_blames h.1 hw).within fun _ hw => body.walk_blames h.2.1 hw)

theorem Stmt.walkAll_blames : ∀ (ss : List Stmt) {w : Walk}, Stmt.NamesAll P ss → w.Blames P →
    (Stmt.walkAll ss w).Blames P
  | [], _, _, hw => hw
  | s :: ss, _, h, hw => Stmt.walkAll_blames ss h.2 (s.walk_blames h.1 hw)

theorem Stmt.walkOption_blames : ∀ (s : Option Stmt) {w : Walk}, Stmt.NamesOption P s →
    w.Blames P → (Stmt.walkOption s w).Blames P
  | none, _, _, hw => hw
  | some s, _, h, hw => s.walk_blames h hw

/-- A walk over a function reports errors about its tokens only. -/
theorem FunctionDecl.walk_blames : ∀ (d : FunctionDecl) {role : FunctionContext} {w : Walk},
    d.Names P → w.Blames P → (d.walk role w).Blames P
  | ⟨_, _, _, body⟩, _, _, h, hw =>
    hw.within fun _ hw => hw.inScope fun _ hw => Stmt.walkAll_blames body h hw.defineAll

theorem FunctionDecl.walkMethods_blames : ∀ (ds : List FunctionDecl) {w : Walk},
    FunctionDecl.NamesAll P ds → w.Blames P → (FunctionDecl.walkMethods ds w).Blames P
  | [], _, _, hw => hw
  | d :: ds, _, h, hw =>
    FunctionDecl.walkMethods_blames ds h.2 (hw.inScopeOf fun _ hw => d.walk_blames h.1 hw)

theorem FunctionDecl.walkMembers_blames :
    ∀ (ds : List FunctionDecl) {role : FunctionContext} {w : Walk},
    FunctionDecl.NamesAll P ds → w.Blames P → (FunctionDecl.walkMembers ds role w).Blames P
  | [], _, _, _, hw => hw
  | d :: ds, _, _, h, hw =>
    FunctionDecl.walkMembers_blames ds h.2 (hw.inScopeOf fun _ hw => d.walk_blames h.1 hw)

/-- A walk over a class reports errors about its tokens only. -/
theorem ClassDecl.walk_blames : ∀ (d : ClassDecl) {w : Walk}, d.Names P → w.Blames P →
    (d.walk w).Blames P
  | ⟨_, superclass, methods, classMethods, getters, setters⟩, _, h, hw => by
    obtain ⟨_, hsuperclass, hm, hc, hg, hs⟩ := h
    refine hw.enter.enter.within fun w hw => ?_
    exact (Expr.walkOption_blames superclass hsuperclass hw).inClass
      (fun _ hw => FunctionDecl.walkMembers_blames setters hs
        (FunctionDecl.walkMembers_blames getters hg
          (FunctionDecl.walkMethods_blames methods hm hw)))
      fun _ hw => FunctionDecl.walkMembers_blames classMethods hc hw

end

end Lox
