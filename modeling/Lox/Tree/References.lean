import Lox.Tree

/-!
# The references of a tree

Every variable read or written, every `this` and every `super` of a tree with its site, in the
order of a walk that takes an assignment before its value and everything else in reading order;
members of a class come by kind: methods, getters, setters, class methods.
-/

namespace Lox

/-- The four kinds of reference. -/
inductive ReferenceKind where
  | read
  | assignment
  | receiver
  | inherited
  deriving DecidableEq, Repr

/-- A reference: its kind, the token it refers by, and its site. -/
structure Reference where
  kind : ReferenceKind
  token : Token
  site : Site
  deriving DecidableEq

mutual

/-- The references of an expression. -/
def Expr.references : Expr → List Reference
  | .literal _ => []
  | .variable site name => [⟨.read, name, site⟩]
  | .assign site name value => ⟨.assignment, name, site⟩ :: value.references
  | .receiver site keyword => [⟨.receiver, keyword, site⟩]
  | .inherited site keyword _ => [⟨.inherited, keyword, site⟩]
  | .group inner => inner.references
  | .unary _ operand => operand.references
  | .binary left _ right => left.references ++ right.references
  | .logical left _ right => left.references ++ right.references
  | .conditional condition whenTrue whenFalse =>
    condition.references ++ whenTrue.references ++ whenFalse.references
  | .call callee _ arguments => callee.references ++ Expr.referencesAll arguments
  | .get object _ => object.references
  | .set object _ value => object.references ++ value.references
  | .function declaration => declaration.references

/-- The references of expressions in a row. -/
def Expr.referencesAll : List Expr → List Reference
  | [] => []
  | e :: es => e.references ++ Expr.referencesAll es

/-- The references of an expression that may be absent. -/
def Expr.referencesOption : Option Expr → List Reference
  | none => []
  | some e => e.references

/-- The references of a statement. -/
def Stmt.references : Stmt → List Reference
  | .block body => Stmt.referencesAll body
  | .breakLoop _ => []
  | .continueLoop _ => []
  | .classDecl declaration => declaration.references
  | .empty => []
  | .expression value => value.references
  | .functionDecl declaration => declaration.references
  | .conditional condition whenTrue whenFalse =>
    condition.references ++ whenTrue.references ++ Stmt.referencesOption whenFalse
  | .input _ target => target.references
  | .print _ value => value.references
  | .returnValue _ value => Expr.referencesOption value
  | .constant _ value => value.references
  | .var _ value => Expr.referencesOption value
  | .loop condition body increment =>
    condition.references ++ body.references ++ Expr.referencesOption increment

/-- The references of statements in a row. -/
def Stmt.referencesAll : List Stmt → List Reference
  | [] => []
  | s :: ss => s.references ++ Stmt.referencesAll ss

/-- The references of a statement that may be absent. -/
def Stmt.referencesOption : Option Stmt → List Reference
  | none => []
  | some s => s.references

/-- The references of a function's body. -/
def FunctionDecl.references : FunctionDecl → List Reference
  | ⟨_, _, _, body⟩ => Stmt.referencesAll body

/-- The references of functions in a row. -/
def FunctionDecl.referencesAll : List FunctionDecl → List Reference
  | [] => []
  | d :: ds => d.references ++ FunctionDecl.referencesAll ds

/-- The references of a class: its superclass, then its members by kind. -/
def ClassDecl.references : ClassDecl → List Reference
  | ⟨_, superclass, methods, classMethods, getters, setters⟩ =>
    Expr.referencesOption superclass ++ FunctionDecl.referencesAll methods
      ++ FunctionDecl.referencesAll getters ++ FunctionDecl.referencesAll setters
      ++ FunctionDecl.referencesAll classMethods

end

end Lox
