import Lox.Token

/-!
# Syntax errors

What can be wrong with a row of tokens: the rule of the grammar that could not go on, the token at
which it stopped, and what it wanted there.
-/

namespace Lox

/-- The rule of the grammar that reports an error. -/
inductive Rule where
  | assignment
  | call
  | conditional
  | functionLiteral
  | group
  | primary
  | property
  | inherited
  | block
  | breakStatement
  | classDecl
  | continueStatement
  | expressionStatement
  | functionDecl
  | ifStatement
  | inputStatement
  | printStatement
  | returnStatement
  | constantDecl
  | varDecl
  | whileStatement
  | forStatement
  deriving DecidableEq, Repr

/-- What a function is called in error messages. -/
inductive FunctionRole where
  | function
  | method
  deriving DecidableEq, Repr

/-- The word for a function in error messages. -/
def FunctionRole.word : FunctionRole → String
  | .function => "function"
  | .method => "method"

/-- What a rule wanted. -/
inductive Problem where
  | className
  | superclassName
  | classBodyOpen
  | classBodyClose
  | getterName
  | getterParameters
  | getterBodyOpen
  | setterName
  | setterOpen
  | setterArity
  | setterClose
  | setterBodyOpen
  | functionName (role : FunctionRole)
  | functionOpen (role : FunctionRole)
  | parametersClose
  | functionBodyOpen (role : FunctionRole)
  | tooManyParameters
  | parameterName
  | constantName
  | constantEqual
  | constantEnd
  | varName
  | varEnd
  | continueEnd
  | breakEnd
  | forOpen
  | forConditionEnd
  | forClose
  | ifOpen
  | ifClose
  | inputName
  | inputEnd
  | printEnd
  | returnEnd
  | whileOpen
  | whileClose
  | expressionEnd
  | blockClose
  | assignmentTarget
  | conditionalColon
  | tooManyArguments
  | argumentsClose
  | propertyName
  | superDot
  | superMethod
  | literalOpen
  | groupClose
  | expression
  | nothingMore
  deriving DecidableEq, Repr

/-- The wording of a problem. -/
def Problem.message : Problem → String
  | .className => "Expect class name."
  | .superclassName => "Expect superclass name."
  | .classBodyOpen => "Expect '\x7b' before class body."
  | .classBodyClose => "Expect '\x7d' after class body."
  | .getterName => "Expect getter name."
  | .getterParameters => "Getters take no parameters."
  | .getterBodyOpen => "Expect '\x7b' before getter body."
  | .setterName => "Expect setter name."
  | .setterOpen => "Expect '(' after setter name."
  | .setterArity => "A setter must take exactly one parameter."
  | .setterClose => "Expect ')' after setter parameter."
  | .setterBodyOpen => "Expect '\x7b' before setter body."
  | .functionName role => "Expect " ++ role.word ++ " name."
  | .functionOpen role => "Expect '(' after " ++ role.word ++ " name."
  | .parametersClose => "Expect ')' after parameters."
  | .functionBodyOpen role => "Expect '\x7b' before " ++ role.word ++ " body."
  | .tooManyParameters => "Can't have more than 255 parameters."
  | .parameterName => "Expect parameter name."
  | .constantName => "Expect constant name."
  | .constantEqual => "Expect '=' after constant name."
  | .constantEnd => "Expect ';' after constant declaration."
  | .varName => "Expect variable name."
  | .varEnd => "Expect ';' after variable declaration."
  | .continueEnd => "Expect ';' after 'continue'."
  | .breakEnd => "Expect ';' after 'break'."
  | .forOpen => "Expect '(' after 'for'."
  | .forConditionEnd => "Expect ';' after loop condition."
  | .forClose => "Expect ')' after for clauses."
  | .ifOpen => "Expect '(' after 'if'."
  | .ifClose => "Expect ')' after if condition."
  | .inputName => "Expect variable name after 'input'."
  | .inputEnd => "Expect ';' after input variable."
  | .printEnd => "Expect ';' after value."
  | .returnEnd => "Expect ';' after return value."
  | .whileOpen => "Expect '(' after 'while'."
  | .whileClose => "Expect ')' after condition."
  | .expressionEnd => "Expect ';' after expression."
  | .blockClose => "Expect '\x7d' after block."
  | .assignmentTarget => "Invalid assignment target."
  | .conditionalColon => "Expect ':' after then branch of conditional expression."
  | .tooManyArguments => "Can't have more than 255 arguments."
  | .argumentsClose => "Expect ')' after arguments."
  | .propertyName => "Expect property name after '.'."
  | .superDot => "Expect '.' after 'super'."
  | .superMethod => "Expect superclass method name."
  | .literalOpen => "Expect '(' after 'fun' in expression."
  | .groupClose => "Expect ')' after expression."
  | .expression => "Expect expression."
  | .nothingMore => "Expect end of expression."

/-- A syntax error. -/
structure SyntaxError where
  rule : Rule
  token : Token
  problem : Problem
  deriving DecidableEq

/-- What the rule wanted. -/
def SyntaxError.message (e : SyntaxError) : String :=
  e.problem.message

/-- The error with its place. -/
def SyntaxError.text (e : SyntaxError) : String :=
  "[line " ++ toString e.token.line ++ "] Syntax error at " ++ e.token.location ++ ": "
    ++ e.message

end Lox
