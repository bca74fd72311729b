import Lox.Resolution
import Lox.Tree.References
import Lox.Proofs.Scope.Tidy

/-!
# Where a walk comes by

`Visits root w ps part`: the walk over `root` comes by `part` in the state `w`. The scopes open
there are listed in `ps`, innermost first: what each is for, and which declaration in it is just
being evaluated. The relation follows the walk step by step, so a state in it is one that resolving
goes through.
-/

namespace Lox

/-- What a scope is for. -/
inductive Region where
  /-- The body of a block. -/
  | block (body : List Stmt)
  /-- The parameters and the body of a function. -/
  | call (d : FunctionDecl)
  /-- The receiver of a member of a class: the scope holds `this`. -/
  | receiver (d : FunctionDecl)
  /-- The superclass of a class, around its members: the scope holds `super`. -/
  | superclass (d : ClassDecl)

/-- An open scope. -/
structure Place where
  region : Region
  /-- The declaration in the scope whose initializer or superclass clause is being walked. -/
  pending : Option Stmt

/-- The places inside the initializer or the superclass clause of a declaration in the innermost
scope. -/
def Place.introduce (declaration : Stmt) : List Place → List Place
  | [] => []
  | p :: ps => { p with pending := some declaration } :: ps

/-- A part of a tree. -/
inductive Part where
  | expression (e : Expr)
  | expressions (es : List Expr)
  | statement (s : Stmt)
  | statements (ss : List Stmt)
  | function (d : FunctionDecl) (role : FunctionContext)

namespace Part

/-- The walk over a part. -/
def walk : Part → Walk → Walk
  | .expression e, w => e.walk w
  | .expressions es, w => Expr.walkAll es w
  | .statement s, w => s.walk w
  | .statements ss, w => Stmt.walkAll ss w
  | .function d role, w => d.walk role w

/-- The references of a part. -/
def references : Part → List Reference
  | .expression e => e.references
  | .expressions es => Expr.referencesAll es
  | .statement s => s.references
  | .statements ss => Stmt.referencesAll ss
  | .function d _ => d.references

/-- The part is as the grammar makes them. -/
def Tidy : Part → Prop
  | .expression e => e.Tidy
  | .expressions es => Expr.TidyAll es
  | .statement s => s.Tidy
  | .statements ss => Stmt.TidyAll ss
  | .function d _ => d.Tidy

/-- Does the part stand in a scope of its own accord, not inside an expression? -/
def isStatement : Part → Bool
  | .statement _ | .statements _ => true
  | .expression _ | .expressions _ | .function _ _ => false

/-- Is the part a variable that is read? -/
def isVariable : Part → Bool
  | .expression (.variable _ _) => true
  | _ => false

end Part

namespace Walk

/-- The walk with one more scope open. -/
def opened (w : Walk) : Walk :=
  { w with scopes := ∅ :: w.scopes }

/-- The walk with one more scope open that holds a name. -/
def openedWith (name : String) (w : Walk) : Walk :=
  w.opened.enter name true

/-- The walk in another context. -/
def inContext (context : Context) (w : Walk) : Walk :=
  { w with context }

end Walk

/-- The context of the body of a loop. -/
def Context.inLoop (c : Context) : Context :=
  { c with loopDepth := c.loopDepth + 1 }

/-- The context of the body of a function. -/
def Context.inFunction (role : FunctionContext) (c : Context) : Context :=
  { c with function := role, loopDepth := 0 }

/-- The walk where the body of a function begins. -/
def FunctionDecl.bodyStart (d : FunctionDecl) (role : FunctionContext) (w : Walk) : Walk :=
  (w.inContext (w.context.inFunction role)).opened.defineAll d.parameters

namespace ClassDecl

/-- The walk after the name of a class was defined. -/
def named (d : ClassDecl) (w : Walk) : Walk :=
  (w.declare d.name).define d.name

/-- What a class is to the rules of scope. -/
def classContext (d : ClassDecl) : ClassContext :=
  if d.superclass.isSome then .derived else .base

/-- The walk where the superclass clause of a class begins. -/
def clauseStart (d : ClassDecl) (w : Walk) : Walk :=
  (d.named w).inContext
    { (d.named w).context with cls := d.classContext, inClassMethod := false }

/-- The walk where the members of a class begin. -/
def membersStart (d : ClassDecl) (w : Walk) : Walk :=
  if d.superclass.isSome then (Expr.walkOption d.superclass (d.clauseStart w)).openedWith "super"
  else Expr.walkOption d.superclass (d.clauseStart w)

/-- The walk where the getters of a class begin. -/
def gettersStart (d : ClassDecl) (w : Walk) : Walk :=
  FunctionDecl.walkMethods d.methods (d.membersStart w)

/-- The walk where the setters of a class begin. -/
def settersStart (d : ClassDecl) (w : Walk) : Walk :=
  FunctionDecl.walkMembers d.getters .method (d.gettersStart w)

/-- The walk where the class methods of a class begin. -/
def classMethodsStart (d : ClassDecl) (w : Walk) : Walk :=
  let w := FunctionDecl.walkMembers d.setters .method (d.settersStart w)
  w.inContext { w.context with inClassMethod := true }

/-- The places around the members of a class. -/
def places (d : ClassDecl) (ps : List Place) : List Place :=
  if d.superclass.isSome then ⟨.superclass d, none⟩ :: ps else ps

/-- The walk over the class that begins at `w` comes to the member `m` at the last state. -/
inductive Member (d : ClassDecl) (w : Walk) : FunctionDecl → FunctionContext → Walk → Prop where
  | method {before after : List FunctionDecl} {m : FunctionDecl}
      (h : d.methods = before ++ m :: after) :
      Member d w m m.methodContext (FunctionDecl.walkMethods before (d.membersStart w))
  | getter {before after : List FunctionDecl} {m : FunctionDecl}
      (h : d.getters = before ++ m :: after) :
      Member d w m .method (FunctionDecl.walkMembers before .method (d.gettersStart w))
  | setter {before after : List FunctionDecl} {m : FunctionDecl}
      (h : d.setters = before ++ m :: after) :
      Member d w m .method (FunctionDecl.walkMembers before .method (d.settersStart w))
  | classMethod {before after : List FunctionDecl} {m : FunctionDecl}
      (h : d.classMethods = before ++ m :: after) :
      Member d w m .classMethod
        (FunctionDecl.walkMembers before .classMethod (d.classMethodsStart w))

end ClassDecl

/-- The walk over the root comes by a part, in a state and between places. -/
inductive Visits (root : Part) : Walk → List Place → Part → Prop where
  | root : Visits root .start [] root
  -- expressions
  | assignValue {w : Walk} {ps : List Place} {site : Site} {name : Token} {value : Expr}
      (h : Visits root w ps (.expression (.assign site name value))) :
      Visits root w ps (.expression value)
  | groupInner {w : Walk} {ps : List Place} {inner : Expr}
      (h : Visits root w ps (.expression (.group inner))) : Visits root w ps (.expression inner)
  | unaryOperand {w : Walk} {ps : List Place} {operator : Token} {operand : Expr}
      (h : Visits root w ps (.expression (.unary operator operand))) :
      Visits root w ps (.expression operand)
  | binaryLeft {w : Walk} {ps : List Place} {left right : Expr} {operator : Token}
      (h : Visits root w ps (.expression (.binary left operator right))) :
      Visits root w ps (.expression left)
  | binaryRight {w : Walk} {ps : List Place} {left right : Expr} {operator : Token}
      (h : Visits root w ps (.expression (.binary left operator right))) :
      Visits root (left.walk w) ps (.expression right)
  | logicalLeft {w : Walk} {ps : List Place} {left right : Expr} {operator : Token}
      (h : Visits root w ps (.expression (.logical left operator right))) :
      Visits root w ps (.expression left)
  | logicalRight {w : Walk} {ps : List Place} {left right : Expr} {operator : Token}
      (h : Visits root w ps (.expression (.logical left operator right))) :
      Visits root (left.walk w) ps (.expression right)
  | choiceCondition {w : Walk} {ps : List Place} {condition whenTrue whenFalse : Expr}
      (h : Visits root w ps (.expression (.conditional condition whenTrue whenFalse))) :
      Visits root w ps (.expression condition)
  | choiceTrue {w : Walk} {ps : List Place} {condition whenTrue whenFalse : Expr}
      (h : Visits root w ps (.expression (.conditional condition whenTrue whenFalse))) :
      Visits root (condition.walk w) ps (.expression whenTrue)
  | choiceFalse {w : Walk} {ps : List Place} {condition whenTrue whenFalse : Expr}
      (h : Visits root w ps (.expression (.conditional condition whenTrue whenFalse))) :
      Visits root (whenTrue.walk (condition.walk w)) ps (.expression whenFalse)
  | callee {w : Walk} {ps : List Place} {callee : Expr} {paren : Token} {arguments : List Expr}
      (h : Visits root w ps (.expression (.call callee paren arguments))) :
      Visits root w ps (.expression callee)
  | callArguments {w : Walk} {ps : List Place} {callee : Expr} {paren : Token}
      {arguments : List Expr} (h : Visits root w ps (.expression (.call callee paren arguments))) :
      Visits root (callee.walk w) ps (.expressions arguments)
  | getObject {w : Walk} {ps : List Place} {object : Expr} {name : Token}
      (h : Visits root w ps (.expression (.get object name))) :
      Visits root w ps (.expression object)
  | setObject {w : Walk} {ps : List Place} {object value : Expr} {name : Token}
      (h : Visits root w ps (.expression (.set object name value))) :
      Visits root w ps (.expression object)
  | setValue {w : Walk} {ps : List Place} {object value : Expr} {name : Token}
      (h : Visits root w ps (.expression (.set object name value))) :
      Visits root (object.walk w) ps (.expression value)
  | literalFunction {w : Walk} {ps : List Place} {d : FunctionDecl}
      (h : Visits root w ps (.expression (.function d))) : Visits root w ps (.function d .function)
  | firstExpression {w : Walk} {ps : List Place} {e : Expr} {es : List Expr}
      (h : Visits root w ps (.expressions (e :: es))) : Visits root w ps (.expression e)
  | nextExpressions {w : Walk} {ps : List Place} {e : Expr} {es : List Expr}
      (h : Visits root w ps (.expressions (e :: es))) :
      Visits root (e.walk w) ps (.expressions es)
  -- functions and classes
  | body {w : Walk} {ps : List Place} {d : FunctionDecl} {role : FunctionContext}
      (h : Visits root w ps (.function d role)) :
      Visits root (d.bodyStart role w) (⟨.call d, none⟩ :: ps) (.statements d.body)
  | clause {w : Walk} {ps : List Place} {d : ClassDecl} {clause : Expr}
      (h : Visits root w ps (.statement (.classDecl d))) (hd : d.superclass = some clause) :
      Visits root (d.clauseStart w) (Place.introduce (.classDecl d) ps) (.expression clause)
  | member {w w' : Walk} {ps : List Place} {d : ClassDecl} {m : FunctionDecl}
      {role : FunctionContext} (h : Visits root w ps (.statement (.classDecl d)))
      (hm : d.Member w m role w') :
      Visits root (w'.openedWith "this") (⟨.receiver m, none⟩ :: d.places ps) (.function m role)
  -- statements
  | firstStatement {w : Walk} {ps : List Place} {s : Stmt} {ss : List Stmt}
      (h : Visits root w ps (.statements (s :: ss))) : Visits root w ps (.statement s)
  | nextStatements {w : Walk} {ps : List Place} {s : Stmt} {ss : List Stmt}
      (h : Visits root w ps (.statements (s :: ss))) : Visits root (s.walk w) ps (.statements ss)
  | block {w : Walk} {ps : List Place} {body : List Stmt}
      (h : Visits root w ps (.statement (.block body))) :
      Visits root w.opened (⟨.block body, none⟩ :: ps) (.statements body)
  | expressionValue {w : Walk} {ps : List Place} {value : Expr}
      (h : Visits root w ps (.statement (.expression value))) : Visits root w ps (.expression value)
  | declaredFunction {w : Walk} {ps : List Place} {d : FunctionDecl} {name : Token}
      (h : Visits root w ps (.statement (.functionDecl d))) (hd : d.name = some name) :
      Visits root ((w.declare name).define name) ps (.function d .function)
  | condition {w : Walk} {ps : List Place} {condition : Expr} {whenTrue : Stmt}
      {whenFalse : Option Stmt}
      (h : Visits root w ps (.statement (.conditional condition whenTrue whenFalse))) :
      Visits root w ps (.expression condition)
  | whenTrue {w : Walk} {ps : List Place} {condition : Expr} {whenTrue : Stmt}
      {whenFalse : Option Stmt}
      (h : Visits root w ps (.statement (.conditional condition whenTrue whenFalse))) :
      Visits root (condition.walk w) ps (.statement whenTrue)
  | whenFalse {w : Walk} {ps : List Place} {condition : Expr} {whenTrue whenFalse : Stmt}
      (h : Visits root w ps (.statement (.conditional condition whenTrue (some whenFalse)))) :
      Visits root (whenTrue.walk (condition.walk w)) ps (.statement whenFalse)
  | inputTarget {w : Walk} {ps : List Place} {keyword : Token} {target : Expr}
      (h : Visits root w ps (.statement (.input keyword target))) :
      Visits root w ps (.expression target)
  | printValue {w : Walk} {ps : List Place} {keyword : Token} {value : Expr}
      (h : Visits root w ps (.statement (.print keyword value))) :
      Visits root w ps (.expression value)
  | returnedValue {w : Walk} {ps : List Place} {keyword : Token} {value : Expr}
      (h : Visits root w ps (.statement (.returnValue keyword (some value)))) :
      Visits root (w.checkReturn keyword true) ps (.expression value)
  | constantValue {w : Walk} {ps : List Place} {name : Token} {value : Expr}
      (h : Visits root w ps (.statement (.constant name value))) :
      Visits root (w.declare name) (Place.introduce (.constant name value) ps) (.expression value)
  | varValue {w : Walk} {ps : List Place} {name : Token} {value : Expr}
      (h : Visits root w ps (.statement (.var name (some value)))) :
      Visits root (w.declare name) (Place.introduce (.var name (some value)) ps) (.expression value)
  | loopCondition {w : Walk} {ps : List Place} {condition : Expr} {body : Stmt}
      {increment : Option Expr}
      (h : Visits root w ps (.statement (.loop condition body increment))) :
      Visits root w ps (.expression condition)
  | loopBody {w : Walk} {ps : List Place} {condition : Expr} {body : Stmt}
      {increment : Option Expr}
      (h : Visits root w ps (.statement (.loop condition body increment))) :
      Visits root ((condition.walk w).inContext (condition.walk w).context.inLoop) ps
        (.statement body)
  | loopIncrement {w : Walk} {ps : List Place} {condition increment : Expr} {body : Stmt}
      (h : Visits root w ps (.statement (.loop condition body (some increment)))) :
      Visits root ((condition.walk w).within (condition.walk w).context.inLoop body.walk) ps
        (.expression increment)

/-- No declaration of the innermost scope is being evaluated where a statement begins. -/
theorem Visits.settled {root part : Part} {w : Walk} {ps : List Place}
    (h : Visits root w ps part) (hpart : part.isStatement = true) :
    ∀ p ∈ ps.head?, p.pending = none := by
  induction h with
  | root => exact fun _ hp => nomatch hp
  | body h ih | block h ih =>
    intro p hp
    cases hp
    rfl
  | firstStatement h ih | nextStatements h ih | whenTrue h ih | whenFalse h ih | loopBody h ih =>
    exact ih rfl
  | _ => cases hpart

end Lox
