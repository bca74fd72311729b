import Lox.Token

/-!
# Syntax trees

Expressions, statements and the declarations of functions and classes. Trees keep the tokens that
error messages name. Every reference (a variable read or written, `this`, `super`) carries a
`site`, a number that is its identity: two references with the same name at the same place of two
texts are different sites.
-/

namespace Lox

/-- The identity of a reference. -/
abbrev Site := Nat

mutual

/-- An expression. -/
inductive Expr where
  | literal (value : Literal)
  | variable (site : Site) (name : Token)
  | assign (site : Site) (name : Token) (value : Expr)
  /-- The keyword `this`. -/
  | receiver (site : Site) (keyword : Token)
  /-- `super.method`. -/
  | inherited (site : Site) (keyword method : Token)
  | group (inner : Expr)
  | unary (operator : Token) (operand : Expr)
  | binary (left : Expr) (operator : Token) (right : Expr)
  /-- `and` and `or`. -/
  | logical (left : Expr) (operator : Token) (right : Expr)
  | conditional (condition whenTrue whenFalse : Expr)
  /-- A call keeps its closing parenthesis. -/
  | call (callee : Expr) (paren : Token) (arguments : List Expr)
  | get (object : Expr) (name : Token)
  | set (object : Expr) (name : Token) (value : Expr)
  | function (declaration : FunctionDecl)

/-- A statement. -/
inductive Stmt where
  | block (body : List Stmt)
  | breakLoop (keyword : Token)
  | continueLoop (keyword : Token)
  | classDecl (declaration : ClassDecl)
  /-- A semicolon alone. -/
  | empty
  | expression (value : Expr)
  | functionDecl (declaration : FunctionDecl)
  | conditional (condition : Expr) (whenTrue : Stmt) (whenFalse : Option Stmt)
  | input (keyword : Token) (target : Expr)
  | print (keyword : Token) (value : Expr)
  | returnValue (keyword : Token) (value : Option Expr)
  | constant (name : Token) (value : Expr)
  | var (name : Token) (value : Option Expr)
  /-- A loop with an expression to evaluate after each round, also after one cut short. -/
  | loop (condition : Expr) (body : Stmt) (increment : Option Expr)

/-- Name, parameters and body of a function. The name of a literal is absent; that of a setter
ends with an equals sign. -/
structure FunctionDecl where
  name : Option Token
  /-- The name as written, or the keyword that begins a literal. -/
  keyword : Token
  parameters : List Token
  body : List Stmt

/-- A class with its members by kind, each kind in the order of the text. -/
structure ClassDecl where
  name : Token
  superclass : Option Expr
  methods : List FunctionDecl
  classMethods : List FunctionDecl
  getters : List FunctionDecl
  setters : List FunctionDecl

end

instance : Inhabited Expr := ⟨.literal .nil⟩

instance : Inhabited Stmt := ⟨.empty⟩

/-- The name under which a class keeps the member. -/
def FunctionDecl.memberName (d : FunctionDecl) : String :=
  (d.name.getD d.keyword).lexeme

/-- The name of the method that makes a new instance ready. -/
def initializerName : String := "init"

/-- The name under which a class keeps the setter of a property. -/
def setterName (property : String) : String :=
  property ++ "="

end Lox
