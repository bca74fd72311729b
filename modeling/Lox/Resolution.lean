import Std.Data.TreeMap
import Lox.Tree

/-!
# Resolving names

A walk over a tree that keeps the scopes open at each point, innermost first. It finds for every
reference how many scopes lie inside the one that declares its name, and it reports the rules of
scope that the tree breaks. Names that no open scope declares are global and get no entry.

The scopes are those for which running the program makes frames: one for a block, one for the
parameters and body of a function, one that holds `this` around each member of a class, and one
that holds `super` around the members of a class with a superclass.
-/

namespace Lox

/-- For each resolved reference, the number of scopes inside the one that declares its name. -/
abbrev Table := Std.TreeMap Site Nat

/-- The rules of scope that a program can break. -/
inductive ScopeCause where
  | ownInitializer
  | breakOutsideLoop
  | continueOutsideLoop
  | returnOutsideFunction
  | thisOutsideClass
  | returnFromInitializer
  | thisInClassMethod
  | superOutsideClass
  | superWithoutSuperclass
  deriving DecidableEq, Repr

/-- The wording of a broken rule. -/
def ScopeCause.message : ScopeCause → String
  | .ownInitializer => "Can't read local variable in its own initializer."
  | .breakOutsideLoop => "Can't use 'break' outside of a loop."
  | .continueOutsideLoop => "Can't use 'continue' outside of a loop."
  | .returnOutsideFunction => "Can't return from top-level code."
  | .thisOutsideClass => "Can't use 'this' outside of a class."
  | .returnFromInitializer => "Can't return a value from an initializer."
  | .thisInClassMethod => "Can't use 'this' in a class method."
  | .superOutsideClass => "Can't use 'super' outside of a class."
  | .superWithoutSuperclass => "Can't use 'super' in a class with no superclass."

/-- A broken rule of scope and the token that breaks it. -/
structure ScopeError where
  cause : ScopeCause
  token : Token
  deriving DecidableEq

/-- The wording of the broken rule. -/
def ScopeError.message (e : ScopeError) : String :=
  e.cause.message

/-- The error with its place. -/
def ScopeError.text (e : ScopeError) : String :=
  "[line " ++ toString e.token.line ++ "] Resolution error at " ++ e.token.location ++ ": "
    ++ e.message

/-- The function that a point of the tree is in. -/
inductive FunctionContext where
  | none
  | function
  | method
  | initializer
  | classMethod
  deriving DecidableEq, Repr

/-- The class that a point of the tree is in. -/
inductive ClassContext where
  | none
  | base
  | derived
  deriving DecidableEq, Repr

/-- What surrounds a point of the tree, as far as the rules of scope ask for it. -/
structure Context where
  function : FunctionContext
  cls : ClassContext
  inClassMethod : Bool
  /-- The number of loops around the point inside its function. -/
  loopDepth : Nat
  deriving DecidableEq, Repr

/-- What surrounds a program. -/
def Context.top : Context :=
  ⟨.none, .none, false, 0⟩

/-- The names that a scope declares so far; `false` while a name's initializer is walked. -/
abbrev Scope := Std.TreeMap String Bool

/-- The state of a walk. -/
structure Walk where
  /-- The open scopes, innermost first. The global one is not among them. -/
  scopes : List Scope
  table : Table
  errors : List ScopeError
  context : Context

namespace Walk

/-- The start of a walk. -/
def start : Walk :=
  ⟨[], ∅, [], .top⟩

/-- Reports a broken rule. -/
def report (cause : ScopeCause) (token : Token) (w : Walk) : Walk :=
  { w with errors := w.errors ++ [⟨cause, token⟩] }

/-- Reports a broken rule if it is broken. -/
def reportIf (broken : Bool) (cause : ScopeCause) (token : Token) (w : Walk) : Walk :=
  if broken then w.report cause token else w

/-- Enters a name into the innermost scope. -/
def enter (name : String) (defined : Bool) (w : Walk) : Walk :=
  match w.scopes with
  | [] => w
  | scope :: scopes => { w with scopes := scope.insert name defined :: scopes }

/-- Declares a name whose initializer is still to come. -/
def declare (name : Token) (w : Walk) : Walk :=
  w.enter name.lexeme false

/-- Marks a name as defined, declaring it if need be. -/
def define (name : Token) (w : Walk) : Walk :=
  w.enter name.lexeme true

/-- Declares and defines names in order. -/
def defineAll (names : List Token) (w : Walk) : Walk :=
  names.foldl (fun w name => (w.declare name).define name) w

/-- The number of scopes inside the innermost one that declares the name. -/
def distance? (name : String) (w : Walk) : Option Nat :=
  w.scopes.findIdx? fun scope => scope.contains name

/-- Enters a reference into the table if an open scope declares its name. -/
def bind (site : Site) (name : Token) (w : Walk) : Walk :=
  match w.distance? name.lexeme with
  | some d => { w with table := w.table.insert site d }
  | none => w

/-- Is the name declared in the innermost scope but not yet defined? -/
def isPending (name : Token) (w : Walk) : Bool :=
  match w.scopes with
  | [] => false
  | scope :: _ => scope[name.lexeme]? = some false

/-- Walks with one more scope open. -/
def inScope (steps : Walk → Walk) (w : Walk) : Walk :=
  let after := steps { w with scopes := ∅ :: w.scopes }
  { after with scopes := after.scopes.tail }

/-- Walks in another context, and returns to the former one. -/
def within (context : Context) (steps : Walk → Walk) (w : Walk) : Walk :=
  { steps { w with context } with context := w.context }

/-- Walks with one more scope open that holds one name which no declaration made. -/
def inScopeOf (name : String) (steps : Walk → Walk) (w : Walk) : Walk :=
  inScope (fun w => steps (w.enter name true)) w

/-- Walks the members of a class, those of its instances first. A class with a superclass has a
scope that holds `super` around them. -/
def inClass (derived : Bool) (instanceMembers classMembers : Walk → Walk) (w : Walk) : Walk :=
  let members w :=
    let w := instanceMembers w
    w.within { w.context with inClassMethod := true } classMembers
  if derived then w.inScopeOf "super" members else members w

/-- The rules for `super`. -/
def checkInherited (keyword : Token) (w : Walk) : Walk :=
  match w.context.cls with
  | .none => w.report .superOutsideClass keyword
  | .base => w.report .superWithoutSuperclass keyword
  | .derived => w

/-- The rules for `this`. -/
def checkReceiver (keyword : Token) (w : Walk) : Walk :=
  if w.context.cls = .none then w.report .thisOutsideClass keyword
  else w.reportIf w.context.inClassMethod .thisInClassMethod keyword

/-- The rules for `return`. -/
def checkReturn (keyword : Token) (hasValue : Bool) (w : Walk) : Walk :=
  (w.reportIf (w.context.function = .none) .returnOutsideFunction keyword).reportIf
    (hasValue && w.context.function = .initializer) .returnFromInitializer keyword

end Walk

/-- What a method's body is to the rules of scope. -/
def FunctionDecl.methodContext (d : FunctionDecl) : FunctionContext :=
  if d.name.any fun name => name.lexeme = initializerName then .initializer else .method

mutual

/-- Walks an expression. An assignment's value comes before the name it is for. -/
def Expr.walk : Expr → Walk → Walk
  | .literal _, w => w
  | .variable site name, w =>
    (w.reportIf (w.isPending name) .ownInitializer name).bind site name
  | .assign site name value, w => (value.walk w).bind site name
  | .receiver site keyword, w => (w.checkReceiver keyword).bind site keyword
  | .inherited site keyword _, w => (w.checkInherited keyword).bind site keyword
  | .group inner, w => inner.walk w
  | .unary _ operand, w => operand.walk w
  | .binary left _ right, w => right.walk (left.walk w)
  | .logical left _ right, w => right.walk (left.walk w)
  | .conditional condition whenTrue whenFalse, w =>
    whenFalse.walk (whenTrue.walk (condition.walk w))
  | .call callee _ arguments, w => Expr.walkAll arguments (callee.walk w)
  | .get object _, w => object.walk w
  | .set object _ value, w => value.walk (object.walk w)
  | .function declaration, w => declaration.walk .function w

/-- Walks expressions in a row. -/
def Expr.walkAll : List Expr → Walk → Walk
  | [], w => w
  | e :: es, w => Expr.walkAll es (e.walk w)

/-- Walks an expression that may be absent. -/
def Expr.walkOption : Option Expr → Walk → Walk
  | none, w => w
  | some e, w => e.walk w

/-- Walks a statement. A variable is declared before its initializer and defined after it; the
name of a function is defined before its body. -/
def Stmt.walk : Stmt → Walk → Walk
  | .block body, w => w.inScope (Stmt.walkAll body)
  | .breakLoop keyword, w =>
    w.reportIf (w.context.loopDepth = 0) .breakOutsideLoop keyword
  | .continueLoop keyword, w =>
    w.reportIf (w.context.loopDepth = 0) .continueOutsideLoop keyword
  | .classDecl declaration, w => declaration.walk w
  | .empty, w => w
  | .expression value, w => value.walk w
  | .functionDecl declaration, w =>
    declaration.walk .function
      (declaration.name.elim w fun name => (w.declare name).define name)
  | .conditional condition whenTrue whenFalse, w =>
    Stmt.walkOption whenFalse (whenTrue.walk (condition.walk w))
  | .input _ target, w => target.walk w
  | .print _ value, w => value.walk w
  | .returnValue keyword value, w => Expr.walkOption value (w.checkReturn keyword value.isSome)
  | .constant name value, w => (value.walk (w.declare name)).define name
  | .var name value, w => (Expr.walkOption value (w.declare name)).define name
  | .loop condition body increment, w =>
    let w := condition.walk w
    let w := w.within { w.context with loopDepth := w.context.loopDepth + 1 } body.walk
    Expr.walkOption increment w

/-- Walks statements in a row. -/
def Stmt.walkAll : List Stmt → Walk → Walk
  | [], w => w
  | s :: ss, w => Stmt.walkAll ss (s.walk w)

/-- Walks a statement that may be absent. -/
def Stmt.walkOption : Option Stmt → Walk → Walk
  | none, w => w
  | some s, w => s.walk w

/-- Walks a function: parameters and body share a scope, and the loops around it do not count. -/
def FunctionDecl.walk : FunctionDecl → FunctionContext → Walk → Walk
  | ⟨_, _, parameters, body⟩, role, w =>
    w.within { w.context with function := role, loopDepth := 0 }
      (Walk.inScope fun w => Stmt.walkAll body (w.defineAll parameters))

/-- Walks the methods of a class, each inside a scope that holds `this`. -/
def FunctionDecl.walkMethods : List FunctionDecl → Walk → Walk
  | [], w => w
  | d :: ds, w =>
    FunctionDecl.walkMethods ds (w.inScopeOf "this" (d.walk d.methodContext))

/-- Walks other members of a class, each inside a scope that holds `this`. -/
def FunctionDecl.walkMembers : List FunctionDecl → FunctionContext → Walk → Walk
  | [], _, w => w
  | d :: ds, role, w => FunctionDecl.walkMembers ds role (w.inScopeOf "this" (d.walk role))

/-- Walks a class. Its name is defined first, and its superclass is walked before the scopes
around its members are opened. -/
def ClassDecl.walk : ClassDecl → Walk → Walk
  | ⟨name, superclass, methods, classMethods, getters, setters⟩, w =>
    let w := (w.declare name).define name
    let cls := if superclass.isSome then ClassContext.derived else .base
    w.within { w.context with cls, inClassMethod := false } fun w =>
      (Expr.walkOption superclass w).inClass superclass.isSome
        (fun w =>
          FunctionDecl.walkMembers setters .method
            (FunctionDecl.walkMembers getters .method (FunctionDecl.walkMethods methods w)))
        (FunctionDecl.walkMembers classMethods .classMethod)

end

/-- What resolving gives. -/
structure Resolution where
  table : Table
  errors : List ScopeError

/-- Resolves a program. -/
def Resolution.ofProgram (statements : List Stmt) : Resolution :=
  let w := Stmt.walkAll statements .start
  ⟨w.table, w.errors⟩

/-- Resolves an expression that stands alone. -/
def Resolution.ofExpr (e : Expr) : Resolution :=
  let w := e.walk .start
  ⟨w.table, w.errors⟩

end Lox
