import Lox.Tree
import Lox.Decimal.Layout

/-!
# Expressions fully parenthesized

The text of an expression in which every operator stands in front of its operands, inside
parentheses. The body of a function literal is left out.
-/

namespace Lox

/-- A number in a parenthesized expression: whole ones exactly and with `.0`, others in full. -/
def Literal.numberText (x : Float) : String :=
  (Decimal.exactWhole? x).getD (Decimal.plain x)

/-- A constant in a parenthesized expression; strings have no quotes. -/
def Literal.text : Literal → String
  | .number x => numberText x
  | .string s => s
  | .true => "true"
  | .false => "false"
  | .nil => "nil"

mutual

/-- The expression with every operator in front of its operands. -/
def Expr.parenthesized : Expr → String
  | .literal value => value.text
  | .variable _ name => name.lexeme
  | .assign _ name value => "(= " ++ name.lexeme ++ " " ++ value.parenthesized ++ ")"
  | .receiver _ _ => "this"
  | .inherited _ _ method => "(super " ++ method.lexeme ++ ")"
  | .group inner => "(group " ++ inner.parenthesized ++ ")"
  | .unary operator operand => "(" ++ operator.lexeme ++ " " ++ operand.parenthesized ++ ")"
  | .binary left operator right =>
    "(" ++ operator.lexeme ++ " " ++ left.parenthesized ++ " " ++ right.parenthesized ++ ")"
  | .logical left operator right =>
    "(" ++ operator.lexeme ++ " " ++ left.parenthesized ++ " " ++ right.parenthesized ++ ")"
  | .conditional condition whenTrue whenFalse =>
    "(?: " ++ condition.parenthesized ++ " " ++ whenTrue.parenthesized ++ " "
      ++ whenFalse.parenthesized ++ ")"
  | .call callee _ arguments =>
    "(call " ++ callee.parenthesized ++ Expr.parenthesizedAll arguments ++ ")"
  | .get object name => "(. " ++ object.parenthesized ++ " " ++ name.lexeme ++ ")"
  | .set object name value =>
    "(.= " ++ object.parenthesized ++ " " ++ name.lexeme ++ " " ++ value.parenthesized ++ ")"
  | .function declaration =>
    "(fun (" ++ " ".intercalate (declaration.parameters.map Token.lexeme) ++ "))"

/-- The expressions in a row, each after a space. -/
def Expr.parenthesizedAll : List Expr → String
  | [] => ""
  | e :: es => " " ++ e.parenthesized ++ Expr.parenthesizedAll es

end

end Lox
