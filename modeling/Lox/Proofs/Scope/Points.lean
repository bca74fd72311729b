import Lox.Resolution
import Lox.Tree.References

/-!
# The points of a program

What the rules of scope say, without a walk. A point of a program is a place where it refers to a
name, or leaves a loop or a function; its setting is all that it lies in, from the innermost
outwards, where every scope comes with the names that it declares there. The settings are found
going down the tree, from what is around a part alone, and nothing is put back on the way up.

A setting tells which scope a name belongs to (`Setting.scopes`), and whether the point breaks a
rule (`Point.violation?`).
-/

namespace Lox

/-- What a scope is there for. -/
inductive ScopeKind where
  | block
  /-- The parameters and the body of a function. -/
  | body (role : FunctionContext)
  /-- It holds `this` around a member of a class. -/
  | receiver (inClassMethod : Bool)
  /-- It holds `super` around the members of a class. -/
  | superclass
  deriving DecidableEq, Repr

/-- What a point can lie in. -/
inductive Enclosure where
  /-- A scope with the names that it declares so far. -/
  | scope (kind : ScopeKind) (names : List String)
  /-- The body of a loop. -/
  | loop
  /-- A class, its superclass clause included. -/
  | cls (derived : Bool)
  /-- The initializer of the variable or the constant. -/
  | initializer (name : String)
  deriving DecidableEq, Repr

namespace Enclosure

/-- The names of a scope. -/
def names? : Enclosure → Option (List String)
  | .scope _ names => some names
  | _ => none

/-- What a function is to the rules of scope. -/
def role? : Enclosure → Option FunctionContext
  | .scope (.body role) _ => some role
  | _ => none

/-- Whether a class has a superclass. -/
def derived? : Enclosure → Option Bool
  | .cls derived => some derived
  | _ => none

/-- Is it the scope around a class method? -/
def isClassMethod : Enclosure → Bool
  | .scope (.receiver inClassMethod) _ => inClassMethod
  | _ => false

end Enclosure

/-- All that a point lies in, from the innermost outwards. -/
abbrev Setting := List Enclosure

namespace Setting

/-- The scopes around a point by their names, innermost first. The global one is not among them. -/
def scopes (s : Setting) : List (List String) :=
  s.filterMap Enclosure.names?

/-- What the innermost function around a point is. -/
def function (s : Setting) : FunctionContext :=
  (s.findSome? Enclosure.role?).getD .none

/-- What the innermost class around a point is. -/
def cls (s : Setting) : ClassContext :=
  match s.findSome? Enclosure.derived? with
  | none => .none
  | some false => .base
  | some true => .derived

/-- The part of the setting that is inside the innermost function. -/
def insideFunction (s : Setting) : Setting :=
  s.takeWhile fun e => e.role?.isNone

/-- The part of the setting that is inside the innermost class. -/
def insideClass (s : Setting) : Setting :=
  s.takeWhile fun e => e.derived?.isNone

/-- Is the point in a class method of the innermost class? -/
def inClassMethod (s : Setting) : Bool :=
  s.insideClass.any Enclosure.isClassMethod

/-- Is the point in the initializer of a name of the innermost scope, and in no function inside
that initializer? -/
def initializes (name : String) : Setting → Bool
  | .initializer introduced :: around => introduced = name && !(scopes around).isEmpty
  | _ => false

/-- The setting after declarations in the innermost scope. At the top level they change nothing. -/
def declaring (names : List String) : Setting → Setting
  | [] => []
  | .scope kind earlier :: around => .scope kind (earlier ++ names) :: around
  | e :: around => e :: declaring names around

end Setting

/-- What a point is about. -/
inductive Usage where
  | refers (r : Reference)
  | breaks (keyword : Token)
  | continues (keyword : Token)
  | returns (keyword : Token) (hasValue : Bool)
  deriving DecidableEq

/-- A place in a program that the rules of scope are about. -/
structure Point where
  setting : Setting
  usage : Usage
  deriving DecidableEq

namespace Point

/-- The reference at the point. -/
def reference? (p : Point) : Option Reference :=
  match p.usage with
  | .refers r => some r
  | _ => none

/-- The rule that the point breaks. -/
def violation? (p : Point) : Option ScopeError :=
  match p.usage with
  | .refers ⟨.read, name, _⟩ =>
    if p.setting.initializes name.lexeme then some ⟨.ownInitializer, name⟩ else none
  | .refers ⟨.assignment, _, _⟩ => none
  | .refers ⟨.receiver, keyword, _⟩ =>
    if p.setting.cls = .none then some ⟨.thisOutsideClass, keyword⟩
    else if p.setting.inClassMethod then some ⟨.thisInClassMethod, keyword⟩
    else none
  | .refers ⟨.inherited, keyword, _⟩ =>
    match p.setting.cls with
    | .none => some ⟨.superOutsideClass, keyword⟩
    | .base => some ⟨.superWithoutSuperclass, keyword⟩
    | .derived => none
  | .breaks keyword =>
    if .loop ∈ p.setting.insideFunction then none else some ⟨.breakOutsideLoop, keyword⟩
  | .continues keyword =>
    if .loop ∈ p.setting.insideFunction then none else some ⟨.continueOutsideLoop, keyword⟩
  | .returns keyword hasValue =>
    if p.setting.function = .none then some ⟨.returnOutsideFunction, keyword⟩
    else if p.setting.function = .initializer ∧ hasValue then
      some ⟨.returnFromInitializer, keyword⟩
    else none

end Point

mutual

/-- The names that a statement declares in the scope that it stands in. A branch and the body of a
loop stand in the scope of the whole statement; as the grammar has it they declare nothing. -/
def Stmt.declares : Stmt → List String
  | .classDecl declaration => [declaration.name.lexeme]
  | .functionDecl declaration => (declaration.name.map Token.lexeme).toList
  | .constant name _ => [name.lexeme]
  | .var name _ => [name.lexeme]
  | .conditional _ whenTrue whenFalse => whenTrue.declares ++ Stmt.declaresOption whenFalse
  | .loop _ body _ => body.declares
  | .block _ | .breakLoop _ | .continueLoop _ | .empty | .expression _ | .input _ _ | .print _ _
  | .returnValue _ _ => []

/-- The names that a statement declares, if there is one. -/
def Stmt.declaresOption : Option Stmt → List String
  | none => []
  | some s => s.declares

end

mutual

/-- The points of an expression in a setting. An assignment's value comes before the name it is
for. -/
def Expr.points : Expr → Setting → List Point
  | .literal _, _ => []
  | .variable site name, s => [⟨s, .refers ⟨.read, name, site⟩⟩]
  | .assign site name value, s => value.points s ++ [⟨s, .refers ⟨.assignment, name, site⟩⟩]
  | .receiver site keyword, s => [⟨s, .refers ⟨.receiver, keyword, site⟩⟩]
  | .inherited site keyword _, s => [⟨s, .refers ⟨.inherited, keyword, site⟩⟩]
  | .group inner, s => inner.points s
  | .unary _ operand, s => operand.points s
  | .binary left _ right, s => left.points s ++ right.points s
  | .logical left _ right, s => left.points s ++ right.points s
  | .conditional condition whenTrue whenFalse, s =>
    condition.points s ++ whenTrue.points s ++ whenFalse.points s
  | .call callee _ arguments, s => callee.points s ++ Expr.pointsAll arguments s
  | .get object _, s => object.points s
  | .set object _ value, s => object.points s ++ value.points s
  | .function declaration, s => declaration.points .function s

/-- The points of expressions in a row. -/
def Expr.pointsAll : List Expr → Setting → List Point
  | [], _ => []
  | e :: es, s => e.points s ++ Expr.pointsAll es s

/-- The points of an expression that may be absent. -/
def Expr.pointsOption : Option Expr → Setting → List Point
  | none, _ => []
  | some e, s => e.points s

/-- The points of a statement in a setting. A name is declared in its own initializer, in the body
of its function, and in all of its class. -/
def Stmt.points : Stmt → Setting → List Point
  | .block body, s => Stmt.pointsAll body (.scope .block [] :: s)
  | .breakLoop keyword, s => [⟨s, .breaks keyword⟩]
  | .continueLoop keyword, s => [⟨s, .continues keyword⟩]
  | .classDecl declaration, s => declaration.points (s.declaring [declaration.name.lexeme])
  | .empty, _ => []
  | .expression value, s => value.points s
  | .functionDecl declaration, s =>
    declaration.points .function (s.declaring (declaration.name.map Token.lexeme).toList)
  | .conditional condition whenTrue whenFalse, s =>
    condition.points s ++ whenTrue.points s
      ++ Stmt.pointsOption whenFalse (s.declaring whenTrue.declares)
  | .input _ target, s => target.points s
  | .print _ value, s => value.points s
  | .returnValue keyword value, s =>
    ⟨s, .returns keyword value.isSome⟩ :: Expr.pointsOption value s
  | .constant name value, s =>
    value.points (.initializer name.lexeme :: s.declaring [name.lexeme])
  | .var name value, s =>
    Expr.pointsOption value (.initializer name.lexeme :: s.declaring [name.lexeme])
  | .loop condition body increment, s =>
    condition.points s ++ body.points (.loop :: s)
      ++ Expr.pointsOption increment (s.declaring body.declares)

/-- The points of statements in a row: each one sees what those before it declare. -/
def Stmt.pointsAll : List Stmt → Setting → List Point
  | [], _ => []
  | st :: sts, s => st.points s ++ Stmt.pointsAll sts (s.declaring st.declares)

/-- The points of a statement that may be absent. -/
def Stmt.pointsOption : Option Stmt → Setting → List Point
  | none, _ => []
  | some st, s => st.points s

/-- The points of a function: its scope declares the parameters. -/
def FunctionDecl.points : FunctionDecl → FunctionContext → Setting → List Point
  | ⟨_, _, parameters, body⟩, role, s =>
    Stmt.pointsAll body (.scope (.body role) (parameters.map Token.lexeme) :: s)

/-- The points of the methods of a class. -/
def FunctionDecl.pointsMethods : List FunctionDecl → Setting → List Point
  | [], _ => []
  | d :: ds, s =>
    d.points d.methodContext (.scope (.receiver false) ["this"] :: s)
      ++ FunctionDecl.pointsMethods ds s

/-- The points of other members of a class. -/
def FunctionDecl.pointsMembers : List FunctionDecl → FunctionContext → Bool → Setting → List Point
  | [], _, _, _ => []
  | d :: ds, role, inClassMethod, s =>
    d.points role (.scope (.receiver inClassMethod) ["this"] :: s)
      ++ FunctionDecl.pointsMembers ds role inClassMethod s

/-- The points of a class: of its superclass clause, then of its members by kind. -/
def ClassDecl.points : ClassDecl → Setting → List Point
  | ⟨_, superclass, methods, classMethods, getters, setters⟩, s =>
    let around : Setting := .cls superclass.isSome :: s
    let members : Setting :=
      if superclass.isSome then .scope .superclass ["super"] :: around else around
    Expr.pointsOption superclass around ++ FunctionDecl.pointsMethods methods members
      ++ FunctionDecl.pointsMembers getters .method false members
      ++ FunctionDecl.pointsMembers setters .method false members
      ++ FunctionDecl.pointsMembers classMethods .classMethod true members

end

/-- The points of a program. -/
def Program.points (statements : List Stmt) : List Point :=
  Stmt.pointsAll statements []

/-! ## Settings after declarations -/

namespace Setting

variable {names : List String} {s : Setting}

theorem declaring_nil (s : Setting) : s.declaring [] = s := by
  induction s with
  | nil => rfl
  | cons e around ih =>
    cases e with
    | scope kind earlier => simp only [declaring, List.append_nil]
    | _ => rw [declaring, ih]; exact fun _ _ h => nomatch h

theorem declaring_append (names more : List String) (s : Setting) :
    s.declaring (names ++ more) = (s.declaring names).declaring more := by
  induction s with
  | nil => rfl
  | cons e around ih =>
    cases e with
    | scope kind earlier => simp only [declaring, List.append_assoc]
    | _ => simp only [declaring, ih]

end Setting

end Lox
