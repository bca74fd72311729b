import Lox.Tree
import Lox.Grammar.Rules

/-!
# Trees up to sites

A text says nothing about sites: they are numbers given out while it is parsed. `unsited` puts
every site of a tree to zero and keeps everything else, so two trees are the same up to sites if
and only if they are equal without them.
-/

namespace Lox

mutual

/-- The expression with every site zero. -/
def Expr.unsited : Expr → Expr
  | .literal value => .literal value
  | .variable _ name => .variable 0 name
  | .assign _ name value => .assign 0 name value.unsited
  | .receiver _ keyword => .receiver 0 keyword
  | .inherited _ keyword method => .inherited 0 keyword method
  | .group inner => .group inner.unsited
  | .unary operator operand => .unary operator operand.unsited
  | .binary left operator right => .binary left.unsited operator right.unsited
  | .logical left operator right => .logical left.unsited operator right.unsited
  | .conditional condition whenTrue whenFalse =>
    .conditional condition.unsited whenTrue.unsited whenFalse.unsited
  | .call callee paren arguments => .call callee.unsited paren (Expr.unsitedAll arguments)
  | .get object name => .get object.unsited name
  | .set object name value => .set object.unsited name value.unsited
  | .function declaration => .function declaration.unsited

/-- Expressions in a row with every site zero. -/
def Expr.unsitedAll : List Expr → List Expr
  | [] => []
  | e :: es => e.unsited :: Expr.unsitedAll es

/-- An expression that may be absent, with every site zero. -/
def Expr.unsitedOption : Option Expr → Option Expr
  | none => none
  | some e => some e.unsited

/-- The statement with every site zero. -/
def Stmt.unsited : Stmt → Stmt
  | .block body => .block (Stmt.unsitedAll body)
  | .breakLoop keyword => .breakLoop keyword
  | .continueLoop keyword => .continueLoop keyword
  | .classDecl declaration => .classDecl declaration.unsited
  | .empty => .empty
  | .expression value => .expression value.unsited
  | .functionDecl declaration => .functionDecl declaration.unsited
  | .conditional condition whenTrue whenFalse =>
    .conditional condition.unsited whenTrue.unsited (Stmt.unsitedOption whenFalse)
  | .input keyword target => .input keyword target.unsited
  | .print keyword value => .print keyword value.unsited
  | .returnValue keyword value => .returnValue keyword (Expr.unsitedOption value)
  | .constant name value => .constant name value.unsited
  | .var name value => .var name (Expr.unsitedOption value)
  | .loop condition body increment =>
    .loop condition.unsited body.unsited (Expr.unsitedOption increment)

/-- Statements in a row with every site zero. -/
def Stmt.unsitedAll : List Stmt → List Stmt
  | [] => []
  | s :: ss => s.unsited :: Stmt.unsitedAll ss

/-- A statement that may be absent, with every site zero. -/
def Stmt.unsitedOption : Option Stmt → Option Stmt
  | none => none
  | some s => some s.unsited

/-- The function with every site zero. -/
def FunctionDecl.unsited : FunctionDecl → FunctionDecl
  | ⟨name, keyword, parameters, body⟩ => ⟨name, keyword, parameters, Stmt.unsitedAll body⟩

/-- Functions in a row with every site zero. -/
def FunctionDecl.unsitedAll : List FunctionDecl → List FunctionDecl
  | [] => []
  | d :: ds => d.unsited :: FunctionDecl.unsitedAll ds

/-- The class with every site zero. -/
def ClassDecl.unsited : ClassDecl → ClassDecl
  | ⟨name, superclass, methods, classMethods, getters, setters⟩ =>
    ⟨name, Expr.unsitedOption superclass, FunctionDecl.unsitedAll methods,
      FunctionDecl.unsitedAll classMethods, FunctionDecl.unsitedAll getters,
      FunctionDecl.unsitedAll setters⟩

end

namespace Grammar

/-- The members with every site zero. -/
def Members.unsited (ms : Members) : Members :=
  ⟨FunctionDecl.unsitedAll ms.methods, FunctionDecl.unsitedAll ms.classMethods,
    FunctionDecl.unsitedAll ms.getters, FunctionDecl.unsitedAll ms.setters⟩

end Grammar

/-- Two expressions that agree up to sites are both variables or neither is. -/
theorem Expr.eq_variable_of_unsited {e : Expr} {site : Site} {name : Token}
    (h : e.unsited = (Expr.variable site name).unsited) : ∃ site', e = .variable site' name := by
  cases e <;> simp [Expr.unsited] at h
  subst h
  exact ⟨_, rfl⟩

theorem Expr.eq_get_of_unsited {e object : Expr} {name : Token}
    (h : e.unsited = (Expr.get object name).unsited) :
    ∃ object', e = .get object' name ∧ object'.unsited = object.unsited := by
  cases e <;> simp [Expr.unsited] at h
  obtain ⟨hobject, rfl⟩ := h
  exact ⟨_, rfl, hobject⟩

theorem Level.unsited_join (level : Level) (left right : Expr) (operator : Token) :
    (level.join left operator right).unsited = level.join left.unsited operator right.unsited := by
  cases level <;> rfl

end Lox
