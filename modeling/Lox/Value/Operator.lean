import Lox.Value
import Lox.Fault

/-!
# Operators on values

What unary and binary operators make of the values of their operands. Which operands an operator
accepts is checked before anything is computed.
-/

namespace Lox.Value

/-- The sum of two numbers, or the texts of two values one after the other if one is a string. -/
def add : Value → Value → Except RuntimeCause Value
  | .number a, .number b => .ok (.number (a + b))
  | .string a, b => .ok (.string (a ++ b.text))
  | a, .string b => .ok (.string (a.text ++ b))
  | _, _ => .error .operandsNotAddable

/-- The numbers that both operands are. -/
def numbers : Value → Value → Except RuntimeCause (Float × Float)
  | .number a, .number b => .ok (a, b)
  | _, _ => .error .operandsNotNumbers

/-- The quotient of two numbers; zero of either sign divides nothing. -/
def divide (a b : Float) : Except RuntimeCause Value :=
  if b == 0 then .error .divisionByZero else .ok (.number (a / b))

/-- The order of numbers or of strings. Strings are ordered by their characters; a NaN is in no
order with any number. -/
def compare (numbers : Float → Float → Bool) (strings : Ordering → Bool) :
    Value → Value → Except RuntimeCause Value
  | .number a, .number b => .ok (.bool (numbers a b))
  | .string a, .string b => .ok (.bool (strings (Ord.compare a b)))
  | _, _ => .error .operandsNotComparable

/-- A binary operator applied to the values of its operands. -/
def binary (operator : Kind) (left right : Value) : Except RuntimeCause Value :=
  match operator with
  | .mark .comma => .ok right
  | .mark .equalEqual => .ok (.bool (left.equals right))
  | .mark .bangEqual => .ok (.bool (!left.equals right))
  | .mark .plus => add left right
  | .mark .minus => do
    let (a, b) ← numbers left right
    return .number (a - b)
  | .mark .star => do
    let (a, b) ← numbers left right
    return .number (a * b)
  | .mark .slash => do
    let (a, b) ← numbers left right
    divide a b
  | .mark .greater => compare (fun a b => b < a) (·.isGT) left right
  | .mark .greaterEqual => compare (fun a b => b ≤ a) (·.isGE) left right
  | .mark .less => compare (fun a b => a < b) (·.isLT) left right
  | .mark .lessEqual => compare (fun a b => a ≤ b) (·.isLE) left right
  | _ => .error .invalidOperator

/-- A unary operator applied to the value of its operand: a minus negates a number, any other
operator denies the operand. -/
def unary (operator : Kind) (operand : Value) : Except RuntimeCause Value :=
  match operator with
  | .mark .minus =>
    match operand with
    | .number x => .ok (.number (-x))
    | _ => .error .operandNotNumber
  | _ => .ok (.bool !operand.isTruthy)

/-- Does the value of the left operand decide a logical expression by itself? -/
def decides (operator : Kind) (left : Value) : Bool :=
  match operator with
  | .keyword .orKw => left.isTruthy
  | _ => !left.isTruthy

end Lox.Value
