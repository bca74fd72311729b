import Lox.Token
import Lox.Native

/-!
# Runtime errors

What can go wrong while a program runs, and the token at which it does.
-/

namespace Lox

/-- Why a native function refuses its arguments. -/
inductive NativeFault where
  | wrongKind (native : Native) (wanted got : String)
  | missing (native : Native) (wanted : String)
  deriving DecidableEq, Repr

/-- The wording of a native function's refusal. -/
def NativeFault.message : NativeFault → String
  | .wrongKind native wanted got =>
    native.name ++ "() expects a " ++ wanted ++ " but got " ++ got ++ "."
  | .missing native wanted => native.name ++ "() expects a " ++ wanted ++ "."

/-- Why evaluation cannot go on. -/
inductive RuntimeCause where
  | undefinedVariable
  | constantReassigned
  | undefinedProperty
  | noProperties
  | noFields
  | notCallable
  | wrongArity (expected got : Nat)
  | operandNotNumber
  | operandsNotNumbers
  | operandsNotAddable
  | operandsNotComparable
  | divisionByZero
  | invalidOperator
  | superNotHere
  | superclassNotClass
  | inputUnreadable
  | inputTargetInvalid
  | outputRefused
  | native (fault : NativeFault)
  deriving DecidableEq, Repr

/-- A runtime error. -/
structure RuntimeError where
  token : Token
  cause : RuntimeCause
  deriving DecidableEq

/-- The wording of a runtime error; some name the token's text. A refused write is worded by what
refuses it: `sink full` are the words of an output with a limit (`Output`), the only one that
refuses anything here. -/
def RuntimeError.message (e : RuntimeError) : String :=
  match e.cause with
  | .undefinedVariable => "Undefined variable '" ++ e.token.lexeme ++ "'."
  | .constantReassigned => "Cannot reassign constant '" ++ e.token.lexeme ++ "'."
  | .undefinedProperty => "Undefined property '" ++ e.token.lexeme ++ "'."
  | .noProperties => "Only instances have properties."
  | .noFields => "Only instances have fields."
  | .notCallable => "Can only call functions and classes."
  | .wrongArity expected got =>
    "Expected " ++ toString expected ++ " arguments but got " ++ toString got ++ "."
  | .operandNotNumber => "Operand must be a number."
  | .operandsNotNumbers => "Operands must be numbers."
  | .operandsNotAddable => "Operands must be two numbers or a string and another object."
  | .operandsNotComparable => "Operands must be two numbers or two strings."
  | .divisionByZero => "Division by zero."
  | .invalidOperator => "Invalid binary operator."
  | .superNotHere => "Can't use 'super' here."
  | .superclassNotClass => "Superclass must be a class."
  | .inputUnreadable => "There was an error reading input."
  | .inputTargetInvalid => "Invalid input target."
  | .outputRefused => "Could not write output: sink full."
  | .native fault => fault.message

/-- The error with its place. -/
def RuntimeError.text (e : RuntimeError) : String :=
  e.message ++ "\n[line " ++ toString e.token.line ++ "]"

end Lox
