import Lox.Proofs.Grammar.Derivation

/-!
# Writing a tree

`Stmt.tokensAll` writes a program as tokens, and `Stmt.canonicalAll` says of a program, by looking
at its tree, that it is one that parsing can give: every expression is tight enough for where it
stands, branches and bodies are statements, and every token is of the type its place asks for.

A tree does not keep its punctuation, nor the keywords that only begin something. How they are
written is left open: any tokens of these kinds will do (`Spelling`).
-/

namespace Lox

/-- How the tokens that a tree does not keep are written: any token of the kind. -/
structure Spelling where
  token : Kind → Token
  kind_token (k : Kind) : (token k).kind = k

namespace Spelling

variable (w : Spelling)

/-- A mark. -/
def mark (m : Mark) : Token :=
  w.token (.mark m)

/-- A keyword. -/
def keyword (k : Keyword) : Token :=
  w.token (.keyword k)

/-- A name. -/
def name (lexeme : String) : Token :=
  (w.token .identifier).renamed lexeme

theorem isMark_mark (m : Mark) : (w.mark m).isMark m = true :=
  Token.isMark_iff.mpr (w.kind_token _)

theorem isKeyword_keyword (k : Keyword) : (w.keyword k).isKeyword k = true :=
  Token.isKeyword_iff.mpr (w.kind_token _)

end Spelling

/-- Marks and keywords as they are spelled, all on one line. -/
def Spelling.plain (line : Nat) : Spelling where
  token
    | .mark m => ⟨.mark m, m.spelling, line⟩
    | .keyword k => ⟨.keyword k, k.spelling, line⟩
    | .string contents => ⟨.string contents, "\"" ++ contents ++ "\"", line⟩
    | .number value => ⟨.number value, toString value, line⟩
    | .identifier => ⟨.identifier, "", line⟩
    | .eof => Token.endOf line
  kind_token k := by cases k <;> rfl

/-- The kind of the tokens that stand for the constant. -/
def Literal.kind : Literal → Kind
  | .number value => .number value
  | .string contents => .string contents
  | .true => .keyword .trueKw
  | .false => .keyword .falseKw
  | .nil => .keyword .nilKw

/-! ## The tokens of a tree -/

/-- Names behind commas. -/
def moreParameters (w : Spelling) : List Token → List Token
  | [] => []
  | name :: names => w.mark .comma :: name :: moreParameters w names

/-- Names with commas between them. -/
def parameterTokens (w : Spelling) : List Token → List Token
  | [] => []
  | name :: names => name :: moreParameters w names

mutual

/-- The tokens of an expression. -/
def Expr.tokens (w : Spelling) : Expr → List Token
  | .literal value => [w.token value.kind]
  | .variable _ name => [name]
  | .assign _ name value => name :: w.mark .equal :: value.tokens w
  | .receiver _ keyword => [keyword]
  | .inherited _ keyword method => [keyword, w.mark .dot, method]
  | .group inner => w.mark .leftParen :: (inner.tokens w ++ [w.mark .rightParen])
  | .unary operator operand => operator :: operand.tokens w
  | .binary left operator right => left.tokens w ++ operator :: right.tokens w
  | .logical left operator right => left.tokens w ++ operator :: right.tokens w
  | .conditional condition whenTrue whenFalse =>
    condition.tokens w ++ w.mark .question ::
      (whenTrue.tokens w ++ w.mark .colon :: whenFalse.tokens w)
  | .call callee paren arguments =>
    callee.tokens w ++ w.mark .leftParen :: (Expr.tokensAll w arguments ++ [paren])
  | .get object name => object.tokens w ++ [w.mark .dot, name]
  | .set object name value =>
    object.tokens w ++ w.mark .dot :: name :: w.mark .equal :: value.tokens w
  | .function declaration => declaration.tokens w

/-- Expressions with commas between them. -/
def Expr.tokensAll (w : Spelling) : List Expr → List Token
  | [] => []
  | e :: es => e.tokens w ++ Expr.tokensMore w es

/-- Expressions behind commas. -/
def Expr.tokensMore (w : Spelling) : List Expr → List Token
  | [] => []
  | e :: es => w.mark .comma :: (e.tokens w ++ Expr.tokensMore w es)

/-- An expression that may be absent, behind the tokens that announce it. -/
def Expr.tokensOption (w : Spelling) (before : List Token) : Option Expr → List Token
  | none => []
  | some e => before ++ e.tokens w

/-- The tokens of a statement. A loop with something to evaluate after each round is a `for` that
starts with nothing; any other is a `while`. -/
def Stmt.tokens (w : Spelling) : Stmt → List Token
  | .block body => w.mark .leftBrace :: (Stmt.tokensAll w body ++ [w.mark .rightBrace])
  | .breakLoop keyword => [keyword, w.mark .semicolon]
  | .continueLoop keyword => [keyword, w.mark .semicolon]
  | .classDecl declaration => w.keyword .classKw :: declaration.tokens w
  | .empty => [w.mark .semicolon]
  | .expression value => value.tokens w ++ [w.mark .semicolon]
  | .functionDecl declaration => w.keyword .funKw :: declaration.tokens w
  | .conditional condition whenTrue whenFalse =>
    w.keyword .ifKw :: w.mark .leftParen :: (condition.tokens w ++ w.mark .rightParen ::
      (whenTrue.tokens w ++ Stmt.tokensElse w whenFalse))
  | .input keyword target => keyword :: (target.tokens w ++ [w.mark .semicolon])
  | .print keyword value => keyword :: (value.tokens w ++ [w.mark .semicolon])
  | .returnValue keyword value =>
    keyword :: (Expr.tokensOption w [] value ++ [w.mark .semicolon])
  | .constant name value =>
    w.keyword .valKw :: name :: w.mark .equal :: (value.tokens w ++ [w.mark .semicolon])
  | .var name value =>
    w.keyword .varKw :: name :: (Expr.tokensOption w [w.mark .equal] value ++ [w.mark .semicolon])
  | .loop condition body none =>
    w.keyword .whileKw :: w.mark .leftParen :: (condition.tokens w ++ w.mark .rightParen ::
      body.tokens w)
  | .loop condition body (some increment) =>
    w.keyword .forKw :: w.mark .leftParen :: w.mark .semicolon :: (condition.tokens w ++
      w.mark .semicolon :: (increment.tokens w ++ w.mark .rightParen :: body.tokens w))

/-- Statements one after the other. -/
def Stmt.tokensAll (w : Spelling) : List Stmt → List Token
  | [] => []
  | s :: ss => s.tokens w ++ Stmt.tokensAll w ss

/-- The part of an `if` from its `else` on. -/
def Stmt.tokensElse (w : Spelling) : Option Stmt → List Token
  | none => []
  | some s => w.keyword .elseKw :: s.tokens w

/-- A function from its name on, a literal from its keyword on. -/
def FunctionDecl.tokens (w : Spelling) : FunctionDecl → List Token
  | ⟨_, keyword, parameters, body⟩ =>
    keyword :: w.mark .leftParen :: (parameterTokens w parameters ++ w.mark .rightParen ::
      w.mark .leftBrace :: (Stmt.tokensAll w body ++ [w.mark .rightBrace]))

/-- Members of one kind, each behind the tokens that mark the kind. -/
def FunctionDecl.tokensAll (w : Spelling) (before : List Token) :
    List FunctionDecl → List Token
  | [] => []
  | d :: ds => before ++ (d.tokens w ++ FunctionDecl.tokensAll w before ds)

/-- A class from its name on. Its members come by kind. -/
def ClassDecl.tokens (w : Spelling) : ClassDecl → List Token
  | ⟨name, superclass, methods, classMethods, getters, setters⟩ =>
    name :: (Expr.tokensOption w [w.mark .less] superclass ++ w.mark .leftBrace ::
      ((FunctionDecl.tokensAll w [] methods ++
        (FunctionDecl.tokensAll w [w.keyword .classKw] classMethods ++
          (FunctionDecl.tokensAll w [w.name "get"] getters ++
            FunctionDecl.tokensAll w [w.name "set"] setters))) ++ [w.mark .rightBrace]))

end

/-! ## Programs that parsing can give -/

/-- Does the statement end in an `if` without `else`, to which a following `else` would go? -/
def Stmt.endsOpen : Stmt → Bool
  | .conditional _ _ none => true
  | .conditional _ _ (some s) => s.endsOpen
  | .loop _ body _ => body.endsOpen
  | _ => false

/-- Is it a statement, as branches of an `if` and bodies of loops have to be, and no declaration? -/
def Stmt.isStatement : Stmt → Bool
  | .classDecl _ | .functionDecl _ | .constant _ _ | .var _ _ => false
  | _ => true

/-- May an expression that is as tight as `own` stand where one as tight as `rank` is asked for? -/
def Rank.admits (rank own : Rank) : Bool :=
  rank.index ≤ own.index

/-- The level of an operator between two operands that are always both evaluated. -/
def binaryLevel? (operator : Token) : Option Level :=
  [Level.comma, .equality, .comparison, .term, .factor].find? fun level => level.joins operator

/-- The level of an operator that may leave its right operand alone. -/
def logicalLevel? (operator : Token) : Option Level :=
  [Level.or, .and].find? fun level => level.joins operator

/-- The names and parameters of functions and methods. -/
def isFunctionHead (name : Option Token) (keyword : Token) (_ : List Token) : Bool :=
  keyword.isIdentifier && name = some keyword

/-- The names and parameters of getters. -/
def isGetterHead (name : Option Token) (keyword : Token) (parameters : List Token) : Bool :=
  isFunctionHead name keyword parameters && parameters.isEmpty

/-- The names and parameters of setters. -/
def isSetterHead (name : Option Token) (keyword : Token) (parameters : List Token) : Bool :=
  keyword.isIdentifier && name = some (keyword.renamed (setterName keyword.lexeme))
    && parameters.length = 1

/-- The names and parameters of literals. -/
def isLiteralHead (name : Option Token) (keyword : Token) (_ : List Token) : Bool :=
  keyword.isKeyword .funKw && name.isNone

/-- Names, and no more of them than a function may have. -/
def areParameters (names : List Token) : Bool :=
  names.all Token.isIdentifier && names.length ≤ Grammar.maxArity

mutual

/-- Is it an expression that parsing can give where one as tight as `rank` is asked for? -/
def Expr.canonical (rank : Rank) : Expr → Bool
  | .literal _ => true
  | .variable _ name => name.isIdentifier
  | .assign _ name value =>
    rank.admits .assignment && name.isIdentifier && value.canonical .assignment
  | .receiver _ keyword => keyword.isKeyword .thisKw
  | .inherited _ keyword method => keyword.isKeyword .superKw && method.isIdentifier
  | .group inner => inner.canonical .comma
  | .unary operator operand =>
    rank.admits .unary && Grammar.isUnaryOperator operator && operand.canonical .unary
  | .binary left operator right =>
    match binaryLevel? operator with
    | some level =>
      rank.admits level.rank && left.canonical level.rank && right.canonical level.operandRank
    | none => false
  | .logical left operator right =>
    match logicalLevel? operator with
    | some level =>
      rank.admits level.rank && left.canonical level.rank && right.canonical level.operandRank
    | none => false
  | .conditional condition whenTrue whenFalse =>
    rank.admits .conditional && condition.canonical .or && whenTrue.canonical .comma
      && whenFalse.canonical .conditional
  | .call callee paren arguments =>
    rank.admits .call && callee.canonical .call && paren.isMark .rightParen
      && arguments.length ≤ Grammar.maxArity && Expr.canonicalAll arguments
  | .get object name => rank.admits .call && object.canonical .call && name.isIdentifier
  | .set object name value =>
    rank.admits .assignment && object.canonical .call && name.isIdentifier
      && value.canonical .assignment
  | .function declaration => declaration.canonical isLiteralHead

/-- Are they arguments that parsing can give? -/
def Expr.canonicalAll : List Expr → Bool
  | [] => true
  | e :: es => e.canonical .assignment && Expr.canonicalAll es

/-- Is it, if it is there, an expression that parsing can give between delimiters? -/
def Expr.canonicalOption : Option Expr → Bool
  | none => true
  | some e => e.canonical .comma

/-- Is it a statement or declaration that parsing can give? -/
def Stmt.canonical : Stmt → Bool
  | .block body => Stmt.canonicalAll body
  | .breakLoop keyword => keyword.isKeyword .breakKw
  | .continueLoop keyword => keyword.isKeyword .continueKw
  | .classDecl declaration => declaration.canonical
  | .empty => true
  | .expression value => value.canonical .comma
  | .functionDecl declaration => declaration.canonical isFunctionHead
  | .conditional condition whenTrue whenFalse =>
    condition.canonical .comma && whenTrue.isStatement && whenTrue.canonical
      && (whenFalse.isNone || !whenTrue.endsOpen) && Stmt.canonicalElse whenFalse
  | .input keyword target =>
    match target with
    | .variable _ name => keyword.isKeyword .inputKw && name.isIdentifier
    | _ => false
  | .print keyword value => keyword.isKeyword .printKw && value.canonical .comma
  | .returnValue keyword value => keyword.isKeyword .returnKw && Expr.canonicalOption value
  | .constant name value => name.isIdentifier && value.canonical .comma
  | .var name value => name.isIdentifier && Expr.canonicalOption value
  | .loop condition body increment =>
    condition.canonical .comma && body.isStatement && body.canonical
      && Expr.canonicalOption increment

/-- Is it a program, or the body of a function or block, that parsing can give? -/
def Stmt.canonicalAll : List Stmt → Bool
  | [] => true
  | s :: ss => s.canonical && Stmt.canonicalAll ss

/-- Is it, if it is there, a statement that parsing can give? -/
def Stmt.canonicalElse : Option Stmt → Bool
  | none => true
  | some s => s.isStatement && s.canonical

/-- Is it a function that parsing can give where its head is asked for? -/
def FunctionDecl.canonical (isHead : Option Token → Token → List Token → Bool) :
    FunctionDecl → Bool
  | ⟨name, keyword, parameters, body⟩ =>
    isHead name keyword parameters && areParameters parameters && Stmt.canonicalAll body

/-- Are they members of one kind that parsing can give? -/
def FunctionDecl.canonicalAll (isHead : Option Token → Token → List Token → Bool) :
    List FunctionDecl → Bool
  | [] => true
  | d :: ds => d.canonical isHead && FunctionDecl.canonicalAll isHead ds

/-- Is it a class that parsing can give? -/
def ClassDecl.canonical : ClassDecl → Bool
  | ⟨name, superclass, methods, classMethods, getters, setters⟩ =>
    (match superclass with
      | none => true
      | some (.variable _ parent) => parent.isIdentifier
      | some _ => false)
      && name.isIdentifier && FunctionDecl.canonicalAll isFunctionHead methods
      && FunctionDecl.canonicalAll isFunctionHead classMethods
      && FunctionDecl.canonicalAll isGetterHead getters
      && FunctionDecl.canonicalAll isSetterHead setters

end

end Lox
