import Lox.Grammar.Cursor
import Lox.Grammar.Level

/-!
# The rules of the grammar, one by one

Each rule takes the rules it refers to as arguments, so what it does is said apart from how the
rules call each other (`Lox.Grammar`). A rule for a statement begins after the statement's
keyword, which it is given where the tree keeps it.

    program      = declaration*
    declaration  = "class" class | "fun" function | "val" val | "var" var | statement
    class        = NAME ("<" NAME)? "{" member* "}"
    member       = "class" function | "get" NAME ("(" ")")? block
                 | "set" NAME "(" NAME ")" block | function
    function     = NAME "(" parameters? ")" block
    val          = NAME "=" expression ";"
    var          = NAME ("=" expression)? ";"
    statement    = "continue" ";" | "break" ";" | ";" | for | if | "input" NAME ";"
                 | "print" expression ";" | "return" expression? ";" | while | block
                 | expression ";"
    for          = "for" "(" ("var" var | expression ";" | ";") expression? ";" expression? ")"
                   statement
    if           = "if" "(" expression ")" statement ("else" statement)?
    while        = "while" "(" expression ")" statement
    block        = "{" declaration* "}"
    expression   = assignment ("," assignment)*
    assignment   = (call ".")? NAME "=" assignment | conditional
    conditional  = or ("?" expression ":" conditional)?
    or … factor  = the levels of binary operators
    unary        = ("!" | "-") unary | call
    call         = primary ("(" arguments? ")" | "." NAME)*
    primary      = NUMBER | STRING | "true" | "false" | "nil" | "this" | NAME
                 | "(" expression ")" | "super" "." NAME | "fun" "(" parameters? ")" block
-/

namespace Lox.Grammar

open Lox.Parser

/-- The most parameters a function and the most arguments a call may have. -/
def maxArity : Nat := 255

/-! ## Expressions -/

/-- An assignment to `target`, if one can be made to it; else the target stands for the whole and
the error is reported. -/
def assignTo (target : Expr) (equals : Token) (value : Expr) : Parser Expr := do
  match target with
  | .variable _ name => return .assign (← freshSite) name value
  | .get object name => return .set object name value
  | other =>
    report .assignment equals .assignmentTarget
    return other

/-- An assignment, or what may stand to its left. -/
def assignmentRule (conditional assignment : Parser Expr) : Parser Expr := do
  let target ← conditional
  match ← take? (Token.isMark .equal) with
  | some equals => assignTo target equals (← assignment)
  | none => return target

/-- A conditional, or its condition alone. What lies between `?` and `:` is as if in
parentheses. -/
def conditionalRule (or expression conditional : Parser Expr) : Parser Expr := do
  let condition ← or
  if ← takes (Token.isMark .question) then
    let whenTrue ← expression
    let _ ← expect (Token.isMark .colon) .conditional .conditionalColon
    let whenFalse ← conditional
    return .conditional condition whenTrue whenFalse
  else
    return condition

/-- Is the token a unary operator? -/
def isUnaryOperator (t : Token) : Bool :=
  t.isMark .bang || t.isMark .minus

/-- A unary operator and its operand, or a call. -/
def unaryRule (unary call : Parser Expr) : Parser Expr := do
  match ← take? isUnaryOperator with
  | some operator => return .unary operator (← unary)
  | none => call

/-- The arguments of a call, after its opening parenthesis, with the closing one. -/
def argumentsRule (arguments : Parser (List Expr)) : Parser (List Expr × Token) := do
  let values ← if ← sees (Token.isMark .rightParen) then pure [] else arguments
  let paren ← expect (Token.isMark .rightParen) .call .argumentsClose
  return (values, paren)

/-- The tokens at which a primary expression begins. -/
def opensPrimary (t : Token) : Bool :=
  match t.kind with
  | .keyword .thisKw | .keyword .superKw | .keyword .funKw | .identifier | .mark .leftParen => true
  | _ => t.literal?.isSome

/-- `super.method`, after the keyword. -/
def inheritedRule (keyword : Token) : Parser Expr := do
  let _ ← expect (Token.isMark .dot) .inherited .superDot
  let method ← expect Token.isIdentifier .inherited .superMethod
  return .inherited (← freshSite) keyword method

/-- An expression in parentheses, after the opening one. -/
def groupRule (expression : Parser Expr) : Parser Expr := do
  let inner ← expression
  let _ ← expect (Token.isMark .rightParen) .group .groupClose
  return .group inner

/-! ## Functions -/

/-- The names of parameters, of which `count` were read before. Too many are reported, each at its
own place, and kept. -/
def parameters : Nat → Nat → Parser (List Token)
  | 0, _ => outOfFuel
  | fuel + 1, count => do
    if maxArity ≤ count then
      report .functionDecl (← peek) .tooManyParameters
    let name ← expect Token.isIdentifier .functionDecl .parameterName
    if ← takes (Token.isMark .comma) then
      return name :: (← parameters fuel (count + 1))
    else
      return [name]

/-- The names of parameters up to a closing parenthesis, which may follow at once. -/
def parametersRule (fuel : Nat) : Parser (List Token) := do
  if ← sees (Token.isMark .rightParen) then return [] else parameters fuel 0

/-- Declarations and the brace that closes them, after the opening one. -/
def blockRule (declarations : Parser (List Stmt)) : Parser (List Stmt) := do
  let body ← declarations
  let _ ← expect (Token.isMark .rightBrace) .block .blockClose
  return body

/-- Parameters and body of a function, after its opening parenthesis. -/
def functionRest (fuel : Nat) (declarations : Parser (List Stmt)) (rule : Rule)
    (role : FunctionRole) : Parser (List Token × List Stmt) := do
  let names ← parametersRule fuel
  let _ ← expect (Token.isMark .rightParen) rule .parametersClose
  let _ ← expect (Token.isMark .leftBrace) rule (.functionBodyOpen role)
  let body ← blockRule declarations
  return (names, body)

/-- A function with its name. -/
def functionRule (fuel : Nat) (declarations : Parser (List Stmt)) (role : FunctionRole) :
    Parser FunctionDecl := do
  let name ← expect Token.isIdentifier .functionDecl (.functionName role)
  let _ ← expect (Token.isMark .leftParen) .functionDecl (.functionOpen role)
  let (names, body) ← functionRest fuel declarations .functionDecl role
  return ⟨some name, name, names, body⟩

/-- A function without a name, after its keyword. -/
def functionLiteralRule (fuel : Nat) (declarations : Parser (List Stmt)) (keyword : Token) :
    Parser Expr := do
  let _ ← expect (Token.isMark .leftParen) .functionLiteral .literalOpen
  let (names, body) ← functionRest fuel declarations .functionLiteral .function
  return .function ⟨none, keyword, names, body⟩

/-! ## Classes -/

/-- The members of a class by kind. -/
structure Members where
  methods : List FunctionDecl
  classMethods : List FunctionDecl
  getters : List FunctionDecl
  setters : List FunctionDecl

/-- No members. -/
def Members.none : Members :=
  ⟨[], [], [], []⟩

/-- A getter, after its marker. Empty parentheses after its name may be left out. -/
def getterRule (declarations : Parser (List Stmt)) : Parser FunctionDecl := do
  let name ← expect Token.isIdentifier .classDecl .getterName
  if ← takes (Token.isMark .leftParen) then
    let _ ← expect (Token.isMark .rightParen) .classDecl .getterParameters
  let _ ← expect (Token.isMark .leftBrace) .classDecl .getterBodyOpen
  let body ← blockRule declarations
  return ⟨some name, name, [], body⟩

/-- A setter, after its marker, under the name that ends with an equals sign. -/
def setterRule (fuel : Nat) (declarations : Parser (List Stmt)) : Parser FunctionDecl := do
  let name ← expect Token.isIdentifier .classDecl .setterName
  let _ ← expect (Token.isMark .leftParen) .classDecl .setterOpen
  let names ← parametersRule fuel
  if names.length ≠ 1 then
    report .classDecl name .setterArity
  let _ ← expect (Token.isMark .rightParen) .classDecl .setterClose
  let _ ← expect (Token.isMark .leftBrace) .classDecl .setterBodyOpen
  let body ← blockRule declarations
  return ⟨some (name.renamed (setterName name.lexeme)), name, names, body⟩

/-- Is the token a name that marks a member when another name follows it? -/
def isMarker (marker : String) (t : Token) : Bool :=
  t.isIdentifier && t.lexeme = marker

/-- Does a member marked `marker` come next? -/
def seesMarker (marker : String) : Parser Bool := do
  return (← sees (isMarker marker)) && (← seesSecond Token.isIdentifier)

/-- One member of a class, in front of the members that `others` reads after it. -/
def memberRule (fuel : Nat) (declarations : Parser (List Stmt)) (others : Parser Members) :
    Parser Members := do
  if ← takes (Token.isKeyword .classKw) then
    let d ← functionRule fuel declarations .method
    let rest ← others
    return { rest with classMethods := d :: rest.classMethods }
  else if ← seesMarker "get" then
    let _ ← take? (isMarker "get")
    let d ← getterRule declarations
    let rest ← others
    return { rest with getters := d :: rest.getters }
  else if ← seesMarker "set" then
    let _ ← take? (isMarker "set")
    let d ← setterRule fuel declarations
    let rest ← others
    return { rest with setters := d :: rest.setters }
  else
    let d ← functionRule fuel declarations .method
    let rest ← others
    return { rest with methods := d :: rest.methods }

/-- The name of the superclass, after the class's own name. -/
def superclassRule : Parser (Option Expr) := do
  if ← takes (Token.isMark .less) then
    let name ← expect Token.isIdentifier .classDecl .superclassName
    return some (.variable (← freshSite) name)
  else
    return none

/-- A class, after its keyword. -/
def classRule (members : Parser Members) : Parser Stmt := do
  let name ← expect Token.isIdentifier .classDecl .className
  let superclass ← superclassRule
  let _ ← expect (Token.isMark .leftBrace) .classDecl .classBodyOpen
  let ms ← members
  let _ ← expect (Token.isMark .rightBrace) .classDecl .classBodyClose
  return .classDecl ⟨name, superclass, ms.methods, ms.classMethods, ms.getters, ms.setters⟩

/-! ## Statements -/

/-- A constant, after its keyword. -/
def constantRule (expression : Parser Expr) : Parser Stmt := do
  let name ← expect Token.isIdentifier .constantDecl .constantName
  let _ ← expect (Token.isMark .equal) .constantDecl .constantEqual
  let value ← expression
  let _ ← expect (Token.isMark .semicolon) .constantDecl .constantEnd
  return .constant name value

/-- A variable, after its keyword. -/
def varRule (expression : Parser Expr) : Parser Stmt := do
  let name ← expect Token.isIdentifier .varDecl .varName
  let value ← if ← takes (Token.isMark .equal) then some <$> expression else pure none
  let _ ← expect (Token.isMark .semicolon) .varDecl .varEnd
  return .var name value

/-- An expression as a statement. -/
def expressionRule (expression : Parser Expr) : Parser Stmt := do
  let value ← expression
  let _ ← expect (Token.isMark .semicolon) .expressionStatement .expressionEnd
  return .expression value

/-- `continue`, after the keyword. -/
def continueRule (keyword : Token) : Parser Stmt := do
  let _ ← expect (Token.isMark .semicolon) .continueStatement .continueEnd
  return .continueLoop keyword

/-- `break`, after the keyword. -/
def breakRule (keyword : Token) : Parser Stmt := do
  let _ ← expect (Token.isMark .semicolon) .breakStatement .breakEnd
  return .breakLoop keyword

/-- An expression, unless the mark that would end it comes at once. -/
def optionalUntil (mark : Mark) (expression : Parser Expr) : Parser (Option Expr) := do
  if ← sees (Token.isMark mark) then return none else some <$> expression

/-- The first clause of a `for`. -/
def forStart (expression : Parser Expr) : Parser (Option Stmt) := do
  if ← takes (Token.isMark .semicolon) then return none
  else if ← takes (Token.isKeyword .varKw) then some <$> varRule expression
  else some <$> expressionRule expression

/-- The loop that a `for` stands for; what it starts with lives in a block around the loop. -/
def forLoop (start : Option Stmt) (condition : Option Expr) (increment : Option Expr)
    (body : Stmt) : Stmt :=
  let loop := Stmt.loop (condition.getD (.literal .true)) body increment
  match start with
  | some first => .block [first, loop]
  | none => loop

/-- A `for`, after the keyword. -/
def forRule (expression : Parser Expr) (statement : Parser Stmt) : Parser Stmt := do
  let _ ← expect (Token.isMark .leftParen) .forStatement .forOpen
  let start ← forStart expression
  let condition ← optionalUntil .semicolon expression
  let _ ← expect (Token.isMark .semicolon) .forStatement .forConditionEnd
  let increment ← optionalUntil .rightParen expression
  let _ ← expect (Token.isMark .rightParen) .forStatement .forClose
  let body ← statement
  return forLoop start condition increment body

/-- An `if`, after the keyword. An `else` belongs to the nearest one. -/
def ifRule (expression : Parser Expr) (statement : Parser Stmt) : Parser Stmt := do
  let _ ← expect (Token.isMark .leftParen) .ifStatement .ifOpen
  let condition ← expression
  let _ ← expect (Token.isMark .rightParen) .ifStatement .ifClose
  let whenTrue ← statement
  let whenFalse ← if ← takes (Token.isKeyword .elseKw) then some <$> statement else pure none
  return .conditional condition whenTrue whenFalse

/-- A `while`, after the keyword. -/
def whileRule (expression : Parser Expr) (statement : Parser Stmt) : Parser Stmt := do
  let _ ← expect (Token.isMark .leftParen) .whileStatement .whileOpen
  let condition ← expression
  let _ ← expect (Token.isMark .rightParen) .whileStatement .whileClose
  let body ← statement
  return .loop condition body none

/-- `input`, after the keyword. -/
def inputRule (keyword : Token) : Parser Stmt := do
  let name ← expect Token.isIdentifier .inputStatement .inputName
  let _ ← expect (Token.isMark .semicolon) .inputStatement .inputEnd
  return .input keyword (.variable (← freshSite) name)

/-- `print`, after the keyword. -/
def printRule (expression : Parser Expr) (keyword : Token) : Parser Stmt := do
  let value ← expression
  let _ ← expect (Token.isMark .semicolon) .printStatement .printEnd
  return .print keyword value

/-- `return`, after the keyword. -/
def returnRule (expression : Parser Expr) (keyword : Token) : Parser Stmt := do
  let value ← optionalUntil .semicolon expression
  let _ ← expect (Token.isMark .semicolon) .returnStatement .returnEnd
  return .returnValue keyword value

/-- The tokens that begin a statement other than an expression. -/
def opensStatement (t : Token) : Bool :=
  match t.kind with
  | .keyword .continueKw | .keyword .breakKw | .keyword .forKw | .keyword .ifKw
  | .keyword .inputKw | .keyword .printKw | .keyword .returnKw | .keyword .whileKw
  | .mark .semicolon | .mark .leftBrace => true
  | _ => false

/-- A statement. -/
def statementRule (expression : Parser Expr) (statement : Parser Stmt)
    (declarations : Parser (List Stmt)) : Parser Stmt := do
  match ← take? opensStatement with
  | none => expressionRule expression
  | some t =>
    match t.kind with
    | .keyword .continueKw => continueRule t
    | .keyword .breakKw => breakRule t
    | .keyword .forKw => forRule expression statement
    | .keyword .ifKw => ifRule expression statement
    | .keyword .inputKw => inputRule t
    | .keyword .printKw => printRule expression t
    | .keyword .returnKw => returnRule expression t
    | .keyword .whileKw => whileRule expression statement
    | .mark .semicolon => return .empty
    | _ => .block <$> blockRule declarations

/-- A declaration or a statement. `fun` before a parenthesis begins an expression. -/
def declarationRule (fuel : Nat) (expression : Parser Expr) (statement : Parser Stmt)
    (declarations : Parser (List Stmt)) (members : Parser Members) : Parser Stmt := do
  if ← takes (Token.isKeyword .classKw) then classRule members
  else if (← sees (Token.isKeyword .funKw)) && (← seesSecond (Token.isMark .leftParen)) then
    statement
  else if ← takes (Token.isKeyword .funKw) then
    .functionDecl <$> functionRule fuel declarations .function
  else if ← takes (Token.isKeyword .valKw) then constantRule expression
  else if ← takes (Token.isKeyword .varKw) then varRule expression
  else statement

end Lox.Grammar
