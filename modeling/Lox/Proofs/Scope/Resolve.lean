import Lox.Proofs.Scope.Places

/-!
# A walk that puts everything back itself

`Stmt.walk` goes into scopes, loops, functions and classes with `inScope` and `within`, which come
out where they went in whatever is done in between. `Stmt.resolve?` has one state instead, sets one
field of it at a time, and puts back by hand what it has set: a scope is opened and closed, a loop
counted and counted off, and four fields of the context are saved before a function or a class and
restored after it. It ends early with `none` where a scope is to be closed that is not open, or a
loop to be counted off that was not counted.

It does so nowhere, and it does what `Stmt.walk` does (`Stmt.resolve?_eq`).
-/

namespace Lox

namespace Walk

/-- Sets what the rules of scope take for the innermost function. -/
def setFunction (role : FunctionContext) (w : Walk) : Walk :=
  { w with context := { w.context with function := role } }

/-- Sets what the rules of scope take for the innermost class. -/
def setClass (cls : ClassContext) (w : Walk) : Walk :=
  { w with context := { w.context with cls } }

/-- Sets whether the walk is among the class methods of a class. -/
def setInClassMethod (inClassMethod : Bool) (w : Walk) : Walk :=
  { w with context := { w.context with inClassMethod } }

/-- Sets the number of loops around. -/
def setLoopDepth (loopDepth : Nat) (w : Walk) : Walk :=
  { w with context := { w.context with loopDepth } }

/-- Counts one more loop. -/
def enterLoop (w : Walk) : Walk :=
  w.setLoopDepth (w.context.loopDepth + 1)

/-- Counts one loop less, which must have been counted. -/
def leaveLoop? (w : Walk) : Option Walk :=
  match w.context.loopDepth with
  | 0 => none
  | loopDepth + 1 => some (w.setLoopDepth loopDepth)

/-- Closes the innermost scope, which must be open. -/
def closeScope? (w : Walk) : Option Walk :=
  match w.scopes with
  | [] => none
  | _ :: scopes => some { w with scopes }

end Walk

/-! ## The walk -/

mutual

/-- Resolves an expression. -/
def Expr.resolve? : Expr → Walk → Option Walk
  | .literal _, w => some w
  | .variable site name, w =>
    some ((w.reportIf (w.isPending name) .ownInitializer name).bind site name)
  | .assign site name value, w => do
    let w ← value.resolve? w
    some (w.bind site name)
  | .receiver site keyword, w => some ((w.checkReceiver keyword).bind site keyword)
  | .inherited site keyword _, w => some ((w.checkInherited keyword).bind site keyword)
  | .group inner, w => inner.resolve? w
  | .unary _ operand, w => operand.resolve? w
  | .binary left _ right, w | .logical left _ right, w => do
    let w ← left.resolve? w
    right.resolve? w
  | .conditional condition whenTrue whenFalse, w => do
    let w ← condition.resolve? w
    let w ← whenTrue.resolve? w
    whenFalse.resolve? w
  | .call callee _ arguments, w => do
    let w ← callee.resolve? w
    Expr.resolveAll? arguments w
  | .get object _, w => object.resolve? w
  | .set object _ value, w => do
    let w ← object.resolve? w
    value.resolve? w
  | .function declaration, w => declaration.resolve? .function w

/-- Resolves expressions in a row. -/
def Expr.resolveAll? : List Expr → Walk → Option Walk
  | [], w => some w
  | e :: es, w => do
    let w ← e.resolve? w
    Expr.resolveAll? es w

/-- Resolves an expression that may be absent. -/
def Expr.resolveOption? : Option Expr → Walk → Option Walk
  | none, w => some w
  | some e, w => e.resolve? w

/-- Resolves a statement. -/
def Stmt.resolve? : Stmt → Walk → Option Walk
  | .block body, w => do
    let w ← Stmt.resolveAll? body w.opened
    w.closeScope?
  | .breakLoop keyword, w =>
    some (w.reportIf (w.context.loopDepth = 0) .breakOutsideLoop keyword)
  | .continueLoop keyword, w =>
    some (w.reportIf (w.context.loopDepth = 0) .continueOutsideLoop keyword)
  | .classDecl declaration, w => declaration.resolve? w
  | .empty, w => some w
  | .expression value, w => value.resolve? w
  | .functionDecl declaration, w =>
    declaration.resolve? .function
      (declaration.name.elim w fun name => (w.declare name).define name)
  | .conditional condition whenTrue whenFalse, w => do
    let w ← condition.resolve? w
    let w ← whenTrue.resolve? w
    Stmt.resolveOption? whenFalse w
  | .input _ target, w => target.resolve? w
  | .print _ value, w => value.resolve? w
  | .returnValue keyword value, w =>
    Expr.resolveOption? value (w.checkReturn keyword value.isSome)
  | .constant name value, w => do
    let w ← value.resolve? (w.declare name)
    some (w.define name)
  | .var name value, w => do
    let w ← Expr.resolveOption? value (w.declare name)
    some (w.define name)
  | .loop condition body increment, w => do
    let w ← condition.resolve? w
    let w ← body.resolve? w.enterLoop
    let w ← w.leaveLoop?
    Expr.resolveOption? increment w

/-- Resolves statements in a row. -/
def Stmt.resolveAll? : List Stmt → Walk → Option Walk
  | [], w => some w
  | s :: ss, w => do
    let w ← s.resolve? w
    Stmt.resolveAll? ss w

/-- Resolves a statement that may be absent. -/
def Stmt.resolveOption? : Option Stmt → Walk → Option Walk
  | none, w => some w
  | some s, w => s.resolve? w

/-- Resolves a function: what it is and the loops around it are saved and restored. -/
def FunctionDecl.resolve? : FunctionDecl → FunctionContext → Walk → Option Walk
  | ⟨_, _, parameters, body⟩, role, w => do
    let enclosingFunction := w.context.function
    let enclosingLoopDepth := w.context.loopDepth
    let w := ((w.setFunction role).setLoopDepth 0).opened
    let w ← Stmt.resolveAll? body (w.defineAll parameters)
    let w ← w.closeScope?
    some ((w.setFunction enclosingFunction).setLoopDepth enclosingLoopDepth)

/-- Resolves members of a class, each inside a scope that holds `this`. -/
def FunctionDecl.resolveMembers? (role : FunctionDecl → FunctionContext) :
    List FunctionDecl → Walk → Option Walk
  | [], w => some w
  | d :: ds, w => do
    let w ← d.resolve? (role d) (w.openedWith "this")
    let w ← w.closeScope?
    FunctionDecl.resolveMembers? role ds w

/-- Resolves a class: what it is and whether its class methods are meant are saved and restored. A
scope that holds `super` is opened and closed if there is a superclass. -/
def ClassDecl.resolve? : ClassDecl → Walk → Option Walk
  | ⟨name, superclass, methods, classMethods, getters, setters⟩, w => do
    let enclosingClass := w.context.cls
    let enclosingInClassMethod := w.context.inClassMethod
    let w := (w.setClass .base).setInClassMethod false
    let w := (w.declare name).define name
    let w := if superclass.isSome then w.setClass .derived else w
    let w ← Expr.resolveOption? superclass w
    let w := if superclass.isSome then w.openedWith "super" else w
    let w ← FunctionDecl.resolveMembers? FunctionDecl.methodContext methods w
    let w ← FunctionDecl.resolveMembers? (fun _ => .method) getters w
    let w ← FunctionDecl.resolveMembers? (fun _ => .method) setters w
    let w := w.setInClassMethod true
    let w ← FunctionDecl.resolveMembers? (fun _ => .classMethod) classMethods w
    let w ← if superclass.isSome then w.closeScope? else some w
    some ((w.setClass enclosingClass).setInClassMethod enclosingInClassMethod)

end

/-! ## What it puts back -/

namespace Walk

variable {w w' : Walk}

/-- A scope that was opened can be closed. -/
theorem closeScope?_opened (h : SameOutside w.opened w') :
    w'.closeScope? = some { w' with scopes := w'.scopes.tail } := by
  obtain ⟨scopes, table, errors, context⟩ := w'
  cases scopes with
  | nil => cases h.length
  | cons scope scopes => rfl

/-- A loop that was counted can be counted off. -/
theorem leaveLoop?_entered (h : w'.context = w.context.inLoop) :
    w'.leaveLoop? = some { w' with context := w.context } := by
  simp only [leaveLoop?, setLoopDepth, h, Context.inLoop]

/-- What a function changed of the context is restored. -/
theorem setFunction_left {role : FunctionContext}
    (h : w'.context = w.context.inFunction role) :
    (w'.setFunction w.context.function).setLoopDepth w.context.loopDepth
      = { w' with context := w.context } := by
  simp only [setFunction, setLoopDepth, h, Context.inFunction]

/-- What a class changed of the context is restored. -/
theorem setClass_left {cls : ClassContext} {inClassMethod : Bool}
    (h : w'.context = { w.context with cls, inClassMethod }) :
    (w'.setClass w.context.cls).setInClassMethod w.context.inClassMethod
      = { w' with context := w.context } := by
  simp only [setClass, setInClassMethod, h]

/-- Entering a name does not depend on the context. -/
theorem enter_inContext (name : String) (defined : Bool) (context : Context) (w : Walk) :
    (w.inContext context).enter name defined = (w.enter name defined).inContext context := by
  obtain ⟨scopes, table, errors, former⟩ := w
  cases scopes with
  | nil => rfl
  | cons scope scopes => rfl

/-- A name is declared alike in every context. -/
theorem define_inContext (name : Token) (context : Context) (w : Walk) :
    ((w.inContext context).declare name).define name
      = ((w.declare name).define name).inContext context := by
  unfold declare define
  rw [enter_inContext, enter_inContext]

/-- The members of a class: the scope that holds `super` can be closed after them, and what the
class changed of the context is restored. -/
theorem inClass_left {rs ss : List Reference} {instanceMembers classMembers : Walk → Walk}
    (hi : ∀ w, Through rs w (instanceMembers w)) (hc : ∀ w, Through ss w (classMembers w))
    (derived : Bool) {cls : ClassContext}
    (hw : w'.context = { w.context with cls, inClassMethod := false }) :
    let start := if derived then w'.openedWith "super" else w'
    let done := classMembers ((instanceMembers start).setInClassMethod true)
    ((if derived then done.closeScope? else some done).bind fun w'' =>
        some ((w''.setClass w.context.cls).setInClassMethod w.context.inClassMethod))
      = some { w'.inClass derived instanceMembers classMembers with context := w.context } := by
  intro start done
  have hscopes : done.scopes = start.scopes := (hc _).scopes.trans (hi start).scopes
  have hstart : start.context = w'.context := by
    cases derived with
    | false => rfl
    | true => exact (enter_along "super" true w'.opened).context
  have hdone : done.context = { w.context with cls, inClassMethod := true } := by
    rw [(hc _).context]
    simp only [setInClassMethod, (hi start).context, hstart, hw]
  cases derived with
  | false => exact congrArg some (setClass_left hdone)
  | true =>
    have hopened := enter_along "super" true w'.opened
    have hsame : SameOutside w'.opened done :=
      ⟨(congrArg List.tail hscopes).trans hopened.tail,
        (congrArg List.length hscopes).trans hopened.length⟩
    rw [if_pos rfl, closeScope?_opened hsame, Option.bind_some]
    exact congrArg some (setClass_left hdone)

end Walk

open Walk

mutual

/-- Resolving an expression is its walk, and never fails. -/
theorem Expr.resolve?_eq : ∀ (e : Expr) (w : Walk), e.resolve? w = some (e.walk w)
  | .literal _, _ => rfl
  | .variable _ _, _ => rfl
  | .assign site name value, w => by
    rw [Expr.resolve?, value.resolve?_eq w]
    rfl
  | .receiver _ _, _ => rfl
  | .inherited _ _ _, _ => rfl
  | .group inner, w => inner.resolve?_eq w
  | .unary _ operand, w => operand.resolve?_eq w
  | .binary left _ right, w | .logical left _ right, w => by
    rw [Expr.resolve?, left.resolve?_eq w]
    exact right.resolve?_eq _
  | .conditional condition whenTrue whenFalse, w => by
    rw [Expr.resolve?, condition.resolve?_eq w, Option.bind_eq_bind, Option.bind_some,
      whenTrue.resolve?_eq]
    exact whenFalse.resolve?_eq _
  | .call callee _ arguments, w => by
    rw [Expr.resolve?, callee.resolve?_eq w]
    exact Expr.resolveAll?_eq arguments _
  | .get object _, w => object.resolve?_eq w
  | .set object _ value, w => by
    rw [Expr.resolve?, object.resolve?_eq w]
    exact value.resolve?_eq _
  | .function declaration, w => declaration.resolve?_eq .function w

theorem Expr.resolveAll?_eq : ∀ (es : List Expr) (w : Walk),
    Expr.resolveAll? es w = some (Expr.walkAll es w)
  | [], _ => rfl
  | e :: es, w => by
    rw [Expr.resolveAll?, e.resolve?_eq w]
    exact Expr.resolveAll?_eq es _

theorem Expr.resolveOption?_eq : ∀ (e : Option Expr) (w : Walk),
    Expr.resolveOption? e w = some (Expr.walkOption e w)
  | none, _ => rfl
  | some e, w => e.resolve?_eq w

/-- Resolving a statement is its walk, and never fails: what is opened and counted on the way in is
there to be closed on the way out. -/
theorem Stmt.resolve?_eq : ∀ (s : Stmt) (w : Walk), s.resolve? w = some (s.walk w)
  | .block body, w => by
    rw [Stmt.resolve?, Stmt.resolveAll?_eq body w.opened]
    exact closeScope?_opened (Stmt.walkAll_along body w.opened).toSameOutside
  | .breakLoop _, _ => rfl
  | .continueLoop _, _ => rfl
  | .classDecl declaration, w => declaration.resolve?_eq w
  | .empty, _ => rfl
  | .expression value, w => value.resolve?_eq w
  | .functionDecl declaration, _ => declaration.resolve?_eq .function _
  | .conditional condition whenTrue whenFalse, w => by
    rw [Stmt.resolve?, condition.resolve?_eq w, Option.bind_eq_bind, Option.bind_some,
      whenTrue.resolve?_eq]
    exact Stmt.resolveOption?_eq whenFalse _
  | .input _ target, w => target.resolve?_eq w
  | .print _ value, w => value.resolve?_eq w
  | .returnValue keyword value, w => Expr.resolveOption?_eq value _
  | .constant name value, w => by
    rw [Stmt.resolve?, value.resolve?_eq]
    rfl
  | .var name value, w => by
    rw [Stmt.resolve?, Expr.resolveOption?_eq value]
    rfl
  | .loop condition body increment, w => by
    have hleave := leaveLoop?_entered (w := condition.walk w)
      (body.walk_along (condition.walk w).enterLoop).context
    rw [Stmt.resolve?, condition.resolve?_eq w, Option.bind_eq_bind, Option.bind_some,
      body.resolve?_eq, Option.bind_some, hleave]
    exact Expr.resolveOption?_eq increment _

/-- Resolving statements in a row is their walk. -/
theorem Stmt.resolveAll?_eq : ∀ (ss : List Stmt) (w : Walk),
    Stmt.resolveAll? ss w = some (Stmt.walkAll ss w)
  | [], _ => rfl
  | s :: ss, w => by
    rw [Stmt.resolveAll?, s.resolve?_eq w]
    exact Stmt.resolveAll?_eq ss _

theorem Stmt.resolveOption?_eq : ∀ (s : Option Stmt) (w : Walk),
    Stmt.resolveOption? s w = some (Stmt.walkOption s w)
  | none, _ => rfl
  | some s, w => s.resolve?_eq w

/-- Resolving a function puts back what it saved, as its walk does. -/
theorem FunctionDecl.resolve?_eq : ∀ (d : FunctionDecl) (role : FunctionContext) (w : Walk),
    d.resolve? role w = some (d.walk role w)
  | ⟨name, keyword, parameters, body⟩, role, w => by
    have hbody := (defineAll_along parameters ((w.setFunction role).setLoopDepth 0).opened).trans
      (Stmt.walkAll_along body _)
    rw [FunctionDecl.resolve?, Stmt.resolveAll?_eq body, Option.bind_eq_bind, Option.bind_some,
      closeScope?_opened hbody.toSameOutside, Option.bind_some]
    exact congrArg some (setFunction_left hbody.context)

/-- Resolving methods is their walk, each in the context of its name. -/
theorem FunctionDecl.resolveMethods?_eq : ∀ (ds : List FunctionDecl) (w : Walk),
    FunctionDecl.resolveMembers? FunctionDecl.methodContext ds w
      = some (FunctionDecl.walkMethods ds w)
  | [], _ => rfl
  | d :: ds, w => by
    have hmember := (enter_along "this" true w.opened).trans
      (d.walk_through d.methodContext (w.openedWith "this")).along
    rw [FunctionDecl.resolveMembers?, d.resolve?_eq, Option.bind_eq_bind, Option.bind_some,
      closeScope?_opened hmember.toSameOutside]
    exact FunctionDecl.resolveMethods?_eq ds _

/-- Resolving other members is their walk in one context. -/
theorem FunctionDecl.resolveMembers?_eq : ∀ (ds : List FunctionDecl) (role : FunctionContext)
    (w : Walk), FunctionDecl.resolveMembers? (fun _ => role) ds w
      = some (FunctionDecl.walkMembers ds role w)
  | [], _, _ => rfl
  | d :: ds, role, w => by
    have hmember := (enter_along "this" true w.opened).trans
      (d.walk_through role (w.openedWith "this")).along
    rw [FunctionDecl.resolveMembers?, d.resolve?_eq, Option.bind_eq_bind, Option.bind_some,
      closeScope?_opened hmember.toSameOutside]
    exact FunctionDecl.resolveMembers?_eq ds role _

/-- Resolving a class puts back what it saved, as its walk does. -/
theorem ClassDecl.resolve?_eq : ∀ (d : ClassDecl) (w : Walk), d.resolve? w = some (d.walk w)
  | ⟨name, superclass, methods, classMethods, getters, setters⟩, w => by
    have hnamed : ((w.declare name).define name).context = w.context :=
      ((declare_along name w).trans (define_along name _)).context
    have hstart : ((((w.setClass .base).setInClassMethod false).declare name).define name)
        = ((w.declare name).define name).inContext
          { w.context with cls := .base, inClassMethod := false } := define_inContext name _ w
    have hclause := Expr.walkOption_through superclass (((w.declare name).define name).inContext
      { w.context with
        cls := if superclass.isSome then .derived else .base, inClassMethod := false })
    have hmembers := inClass_left
      (fun w => ((FunctionDecl.walkMethods_through methods w).trans
        (FunctionDecl.walkMembers_through getters .method _)).trans
        (FunctionDecl.walkMembers_through setters .method _))
      (fun w => FunctionDecl.walkMembers_through classMethods .classMethod w)
      superclass.isSome hclause.context
    simp only [ClassDecl.resolve?, hstart, Expr.resolveOption?_eq,
      FunctionDecl.resolveMethods?_eq, FunctionDecl.resolveMembers?_eq, Option.bind_eq_bind,
      Option.bind_some]
    rw [ClassDecl.walk, within, hnamed]
    cases superclass with
    | none => exact hmembers
    | some superclass => exact hmembers

end

end Lox
