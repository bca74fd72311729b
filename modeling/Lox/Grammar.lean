import Lox.Grammar.Rules

/-!
# Parsing

The rules of `Lox.Grammar.Rules` tied together. Every call of a rule from another costs one unit of
fuel; on the way to reading one token at most `callsPerToken` rules are entered, so the fuel that
`Program.parse` and `Expr.parse` compute from the number of tokens covers every parse.

A program is parsed to its end whatever it holds: a declaration that is refused is left out, its
error is reported, and parsing goes on at the next statement.
-/

namespace Lox

namespace Grammar

open Lox.Parser

mutual

/-- Operands joined by the operators of a level. -/
def binary : Nat → Level → Parser Expr
  | 0, _ => outOfFuel
  | fuel + 1, level => do
    let left ← operand fuel level
    binaryRest fuel level left

/-- What the operators of a level join to `left`. -/
def binaryRest : Nat → Level → Expr → Parser Expr
  | 0, _, _ => outOfFuel
  | fuel + 1, level, left => do
    match ← take? level.joins with
    | some operator =>
      let right ← operand fuel level
      binaryRest fuel level (level.join left operator right)
    | none => return left

/-- An operand of a level. -/
def operand : Nat → Level → Parser Expr
  | 0, _ => outOfFuel
  | fuel + 1, level =>
    match level with
    | .comma => assignment fuel
    | .or => binary fuel .and
    | .and => binary fuel .equality
    | .equality => binary fuel .comparison
    | .comparison => binary fuel .term
    | .term => binary fuel .factor
    | .factor => unary fuel

/-- An assignment or anything tighter. -/
def assignment : Nat → Parser Expr
  | 0 => outOfFuel
  | fuel + 1 => assignmentRule (conditional fuel) (assignment fuel)

/-- A conditional or anything tighter. -/
def conditional : Nat → Parser Expr
  | 0 => outOfFuel
  | fuel + 1 => conditionalRule (binary fuel .or) (binary fuel .comma) (conditional fuel)

/-- A unary operator with its operand or anything tighter. -/
def unary : Nat → Parser Expr
  | 0 => outOfFuel
  | fuel + 1 => unaryRule (unary fuel) (call fuel)

/-- A call, a property or anything tighter. -/
def call : Nat → Parser Expr
  | 0 => outOfFuel
  | fuel + 1 => do
    let callee ← primary fuel
    callRest fuel callee

/-- The calls and properties that follow an expression. -/
def callRest : Nat → Expr → Parser Expr
  | 0, _ => outOfFuel
  | fuel + 1, callee => do
    if ← takes (Token.isMark .leftParen) then
      let (values, paren) ← argumentsRule (arguments fuel 0)
      callRest fuel (.call callee paren values)
    else if ← takes (Token.isMark .dot) then
      let name ← expect Token.isIdentifier .property .propertyName
      callRest fuel (.get callee name)
    else
      return callee

/-- The arguments of a call, of which `count` were read before. Too many are reported, each at its
own place, and kept. -/
def arguments : Nat → Nat → Parser (List Expr)
  | 0, _ => outOfFuel
  | fuel + 1, count => do
    if maxArity ≤ count then
      report .call (← peek) .tooManyArguments
    let value ← assignment fuel
    if ← takes (Token.isMark .comma) then
      return value :: (← arguments fuel (count + 1))
    else
      return [value]

/-- A literal, a name, or an expression with its own delimiters. -/
def primary : Nat → Parser Expr
  | 0 => outOfFuel
  | fuel + 1 => do
    match ← take? opensPrimary with
    | none => refuse .primary (← peek) .expression
    | some t =>
      match t.kind with
      | .keyword .thisKw => return .receiver (← freshSite) t
      | .keyword .superKw => inheritedRule t
      | .keyword .funKw => functionLiteralRule fuel (declarations fuel true) t
      | .identifier => return .variable (← freshSite) t
      | .mark .leftParen => groupRule (binary fuel .comma)
      | _ =>
        match t.literal? with
        | some value => return .literal value
        | none => refuse .primary t .expression

/-- Declarations to the end of the tokens; inside a block, or to the brace that closes it. Those
that are refused are left out. -/
def declarations : Nat → Bool → Parser (List Stmt)
  | 0, _ => outOfFuel
  | fuel + 1, inBlock => do
    if (← get).unread.isEmpty || (inBlock && (← sees (Token.isMark .rightBrace))) then
      return []
    else
      let first ← recovering (declaration fuel)
      let rest ← declarations fuel inBlock
      return first.toList ++ rest

/-- A declaration or a statement. -/
def declaration : Nat → Parser Stmt
  | 0 => outOfFuel
  | fuel + 1 =>
    declarationRule fuel (binary fuel .comma) (statement fuel) (declarations fuel true)
      (members fuel)

/-- A statement. -/
def statement : Nat → Parser Stmt
  | 0 => outOfFuel
  | fuel + 1 => statementRule (binary fuel .comma) (statement fuel) (declarations fuel true)

/-- The members of a class up to the brace that closes it. -/
def members : Nat → Parser Members
  | 0 => outOfFuel
  | fuel + 1 => do
    if (← get).unread.isEmpty || (← sees (Token.isMark .rightBrace)) then
      return .none
    else
      memberRule fuel (declarations fuel true) (members fuel)

end

/-- An expression that spans all tokens. -/
def wholeExpression (fuel : Nat) : Parser (Option Expr) := do
  let value ← binary fuel .comma
  if (← get).unread.isEmpty then
    return some value
  else
    report .primary (← peek) .nothingMore
    return none

/-- More rules than are entered between two tokens. -/
def callsPerToken : Nat := 32

/-- Fuel for any row of so many tokens. -/
def fuelFor (tokens : Nat) : Nat :=
  callsPerToken * (tokens + 1)

end Grammar

/-- What parsing gives: a tree, the errors in the order found, and the next free site. -/
structure Parsed (α : Type) where
  tree : α
  errors : List SyntaxError
  nextSite : Site

/-- Runs a rule on a row of tokens; `none` stands for the tree of a rule that is refused. -/
def Parser.run {α : Type} (rule : Nat → Parser α) (tokens : List Token) (nextSite : Site) :
    Parsed (Option α) :=
  let start := Cursor.start tokens nextSite
  match rule (Grammar.fuelFor start.unread.length) start with
  | .ok tree c => ⟨some tree, c.errors, c.nextSite⟩
  | .error (.problem e) c => ⟨none, c.errors ++ [e], c.nextSite⟩
  | .error .outOfFuel c => ⟨none, c.errors, c.nextSite⟩

/-- Parses a program: the statements that could be read, and every error. References get sites
from `nextSite` on. -/
def Program.parse (tokens : List Token) (nextSite : Site) : Parsed (List Stmt) :=
  let result := Parser.run (fun fuel => Grammar.declarations fuel false) tokens nextSite
  { result with tree := result.tree.getD [] }

/-- Parses one expression that spans all tokens. There may be a tree and errors as well. -/
def Expr.parse (tokens : List Token) (nextSite : Site) : Parsed (Option Expr) :=
  let result := Parser.run Grammar.wholeExpression tokens nextSite
  { result with tree := result.tree.join }

end Lox
