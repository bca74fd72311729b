import Lox.Tree

/-!
# Levels of binary operators

The binary operators by how tightly they bind. All of them associate to the left: an operand of a
level is an expression of the next tighter one.
-/

namespace Lox

/-- Levels of binary operators, from the loosest to the tightest. Between the comma and `or` lie
assignment and the conditional, which are no binary operators. -/
inductive Level where
  | comma
  | or
  | and
  | equality
  | comparison
  | term
  | factor
  deriving DecidableEq, Repr

/-- Is the token an operator of the level? -/
def Level.joins (level : Level) (t : Token) : Bool :=
  match level, t.kind with
  | .comma, .mark .comma => true
  | .or, .keyword .orKw => true
  | .and, .keyword .andKw => true
  | .equality, .mark .bangEqual | .equality, .mark .equalEqual => true
  | .comparison, .mark .greater | .comparison, .mark .greaterEqual
  | .comparison, .mark .less | .comparison, .mark .lessEqual => true
  | .term, .mark .minus | .term, .mark .plus => true
  | .factor, .mark .slash | .factor, .mark .star => true
  | _, _ => false

/-- The tree of an operator between two operands. -/
def Level.join (level : Level) (left : Expr) (operator : Token) (right : Expr) : Expr :=
  match level with
  | .or | .and => .logical left operator right
  | _ => .binary left operator right

end Lox
