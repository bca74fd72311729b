import Lox.Resolution

/-!
# Renaming variables of scopes

A program with another name for some of its variables. Scopes are the blocks and the bodies of
functions, numbered as the tree holds them: in reading order, but in a class by the kind of its
members, those in its methods first, then those in its class methods, its getters and its setters.
A scope that is chosen, and that introduces the old name by no function or class, has the new name
for it: in its `var` and `val` declarations, in the parameters if it is a function's, and in the
references whose distance leads to it.
-/

namespace Lox

/-- The old and the new name, the distances of the references, and the numbers of the scopes whose
variables are renamed. -/
structure Renaming where
  old : String
  new : String
  table : Table
  chosen : Nat → Bool

/-- The name of a function or class that the statement declares. -/
def Stmt.fixedName? : Stmt → Option String
  | .classDecl d => some d.name.lexeme
  | .functionDecl d => d.name.map Token.lexeme
  | _ => none

namespace Renaming

variable (r : Renaming)

/-- The name of a variable of a scope, marked if variables of the old name are renamed there. -/
def token (marked : Bool) (t : Token) : Token :=
  if marked && t.lexeme = r.old then t.renamed r.new else t

/-- Does the distance of a reference lead to a marked scope? -/
def refersTo (marks : List Bool) (site : Site) : Bool :=
  match r.table[site]? with
  | some distance => marks[distance]?.getD false
  | none => false

/-- Is the scope with this number and body marked? -/
def mark (n : Nat) (body : List Stmt) : Bool :=
  r.chosen n && body.all fun s => s.fixedName? != some r.old

/-- A reference in its scopes, innermost first. -/
def reference (marks : List Bool) (site : Site) (t : Token) : Token :=
  r.token (r.refersTo marks site) t

end Renaming

/-! ## Numbers of scopes -/

mutual

/-- How many scopes are in an expression. -/
def Expr.scopes : Expr → Nat
  | .literal _ | .variable _ _ | .receiver _ _ | .inherited _ _ _ => 0
  | .assign _ _ value => value.scopes
  | .group inner => inner.scopes
  | .unary _ operand => operand.scopes
  | .binary left _ right => left.scopes + right.scopes
  | .logical left _ right => left.scopes + right.scopes
  | .conditional condition whenTrue whenFalse =>
    condition.scopes + whenTrue.scopes + whenFalse.scopes
  | .call callee _ arguments => callee.scopes + Expr.scopesAll arguments
  | .get object _ => object.scopes
  | .set object _ value => object.scopes + value.scopes
  | .function declaration => declaration.scopes

/-- How many scopes are in expressions in a row. -/
def Expr.scopesAll : List Expr → Nat
  | [] => 0
  | e :: es => e.scopes + Expr.scopesAll es

/-- How many scopes are in an expression that may be absent. -/
def Expr.scopesOption : Option Expr → Nat
  | none => 0
  | some e => e.scopes

/-- How many scopes are in a statement. -/
def Stmt.scopes : Stmt → Nat
  | .block body => 1 + Stmt.scopesAll body
  | .breakLoop _ | .continueLoop _ | .empty => 0
  | .classDecl declaration => declaration.scopes
  | .expression value => value.scopes
  | .functionDecl declaration => declaration.scopes
  | .conditional condition whenTrue whenFalse =>
    condition.scopes + whenTrue.scopes + Stmt.scopesOption whenFalse
  | .input _ target => target.scopes
  | .print _ value => value.scopes
  | .returnValue _ value => Expr.scopesOption value
  | .constant _ value => value.scopes
  | .var _ value => Expr.scopesOption value
  | .loop condition body increment =>
    condition.scopes + body.scopes + Expr.scopesOption increment

/-- How many scopes are in statements in a row. -/
def Stmt.scopesAll : List Stmt → Nat
  | [] => 0
  | s :: ss => s.scopes + Stmt.scopesAll ss

/-- How many scopes are in a statement that may be absent. -/
def Stmt.scopesOption : Option Stmt → Nat
  | none => 0
  | some s => s.scopes

/-- How many scopes are in a function, its own included. -/
def FunctionDecl.scopes : FunctionDecl → Nat
  | ⟨_, _, _, body⟩ => 1 + Stmt.scopesAll body

/-- How many scopes are in functions in a row. -/
def FunctionDecl.scopesAll : List FunctionDecl → Nat
  | [] => 0
  | d :: ds => d.scopes + FunctionDecl.scopesAll ds

/-- How many scopes are in a class; what holds `this` or `super` is not counted. -/
def ClassDecl.scopes : ClassDecl → Nat
  | ⟨_, superclass, methods, classMethods, getters, setters⟩ =>
    Expr.scopesOption superclass + FunctionDecl.scopesAll methods +
      FunctionDecl.scopesAll classMethods + FunctionDecl.scopesAll getters +
      FunctionDecl.scopesAll setters

end

/-! ## Renamed trees -/

mutual

/-- The expression with renamed variables, where the scopes in it have the numbers from `n` on and
those around it these marks, innermost first. -/
def Expr.renamed (r : Renaming) (n : Nat) (marks : List Bool) : Expr → Expr
  | .literal value => .literal value
  | .variable site name => .variable site (r.reference marks site name)
  | .assign site name value => .assign site (r.reference marks site name) (value.renamed r n marks)
  | .receiver site keyword => .receiver site keyword
  | .inherited site keyword method => .inherited site keyword method
  | .group inner => .group (inner.renamed r n marks)
  | .unary operator operand => .unary operator (operand.renamed r n marks)
  | .binary left operator right =>
    .binary (left.renamed r n marks) operator (right.renamed r (n + left.scopes) marks)
  | .logical left operator right =>
    .logical (left.renamed r n marks) operator (right.renamed r (n + left.scopes) marks)
  | .conditional condition whenTrue whenFalse =>
    .conditional (condition.renamed r n marks) (whenTrue.renamed r (n + condition.scopes) marks)
      (whenFalse.renamed r (n + condition.scopes + whenTrue.scopes) marks)
  | .call callee paren arguments =>
    .call (callee.renamed r n marks) paren (Expr.renamedAll r (n + callee.scopes) marks arguments)
  | .get object name => .get (object.renamed r n marks) name
  | .set object name value =>
    .set (object.renamed r n marks) name (value.renamed r (n + object.scopes) marks)
  | .function declaration => .function (declaration.renamed r n marks)

/-- Expressions in a row with renamed variables. -/
def Expr.renamedAll (r : Renaming) (n : Nat) (marks : List Bool) : List Expr → List Expr
  | [] => []
  | e :: es => e.renamed r n marks :: Expr.renamedAll r (n + e.scopes) marks es

/-- An expression that may be absent, with renamed variables. -/
def Expr.renamedOption (r : Renaming) (n : Nat) (marks : List Bool) : Option Expr → Option Expr
  | none => none
  | some e => some (e.renamed r n marks)

/-- The statement with renamed variables. -/
def Stmt.renamed (r : Renaming) (n : Nat) (marks : List Bool) : Stmt → Stmt
  | .block body => .block (Stmt.renamedAll r (n + 1) (r.mark n body :: marks) body)
  | .breakLoop keyword => .breakLoop keyword
  | .continueLoop keyword => .continueLoop keyword
  | .classDecl declaration => .classDecl (declaration.renamed r n marks)
  | .empty => .empty
  | .expression value => .expression (value.renamed r n marks)
  | .functionDecl declaration => .functionDecl (declaration.renamed r n marks)
  | .conditional condition whenTrue whenFalse =>
    .conditional (condition.renamed r n marks) (whenTrue.renamed r (n + condition.scopes) marks)
      (Stmt.renamedOption r (n + condition.scopes + whenTrue.scopes) marks whenFalse)
  | .input keyword target => .input keyword (target.renamed r n marks)
  | .print keyword value => .print keyword (value.renamed r n marks)
  | .returnValue keyword value => .returnValue keyword (Expr.renamedOption r n marks value)
  | .constant name value =>
    .constant (r.token (marks.headD false) name) (value.renamed r n marks)
  | .var name value =>
    .var (r.token (marks.headD false) name) (Expr.renamedOption r n marks value)
  | .loop condition body increment =>
    .loop (condition.renamed r n marks) (body.renamed r (n + condition.scopes) marks)
      (Expr.renamedOption r (n + condition.scopes + body.scopes) marks increment)

/-- Statements in a row with renamed variables. -/
def Stmt.renamedAll (r : Renaming) (n : Nat) (marks : List Bool) : List Stmt → List Stmt
  | [] => []
  | s :: ss => s.renamed r n marks :: Stmt.renamedAll r (n + s.scopes) marks ss

/-- A statement that may be absent, with renamed variables. -/
def Stmt.renamedOption (r : Renaming) (n : Nat) (marks : List Bool) : Option Stmt → Option Stmt
  | none => none
  | some s => some (s.renamed r n marks)

/-- The function with renamed variables. -/
def FunctionDecl.renamed (r : Renaming) (n : Nat) (marks : List Bool) : FunctionDecl → FunctionDecl
  | ⟨name, keyword, parameters, body⟩ =>
    ⟨name, keyword, parameters.map (r.token (r.mark n body)),
      Stmt.renamedAll r (n + 1) (r.mark n body :: marks) body⟩

/-- Functions in a row with renamed variables. -/
def FunctionDecl.renamedAll (r : Renaming) (n : Nat) (marks : List Bool) :
    List FunctionDecl → List FunctionDecl
  | [] => []
  | d :: ds => d.renamed r n marks :: FunctionDecl.renamedAll r (n + d.scopes) marks ds

/-- The class with renamed variables. Scopes that hold `this` or `super` lie around its members. -/
def ClassDecl.renamed (r : Renaming) (n : Nat) (marks : List Bool) : ClassDecl → ClassDecl
  | ⟨name, superclass, methods, classMethods, getters, setters⟩ =>
    let inside := false :: if superclass.isSome then false :: marks else marks
    let n₁ := n + Expr.scopesOption superclass
    let n₂ := n₁ + FunctionDecl.scopesAll methods
    let n₃ := n₂ + FunctionDecl.scopesAll classMethods
    let n₄ := n₃ + FunctionDecl.scopesAll getters
    ⟨name, Expr.renamedOption r n marks superclass, FunctionDecl.renamedAll r n₁ inside methods,
      FunctionDecl.renamedAll r n₂ inside classMethods, FunctionDecl.renamedAll r n₃ inside getters,
      FunctionDecl.renamedAll r n₄ inside setters⟩

end

end Lox
