/-!
# Native functions

The functions that every program finds among its globals.
-/

namespace Lox

/-- A native function. -/
inductive Native where
  | clock
  | rand
  | round
  | abs
  | lowercase
  | uppercase
  | isNumber
  | isString
  | stringify
  deriving DecidableEq, Repr

namespace Native

/-- The native functions in the order in which they are bound. -/
def all : List Native :=
  [.clock, .rand, .round, .abs, .lowercase, .uppercase, .isNumber, .isString, .stringify]

theorem mem_all (n : Native) : n ∈ all := by
  cases n <;> decide

/-- The name of a native function. -/
def name : Native → String
  | .clock => "clock"
  | .rand => "rand"
  | .round => "round"
  | .abs => "abs"
  | .lowercase => "lowercase"
  | .uppercase => "uppercase"
  | .isNumber => "isNumber"
  | .isString => "isString"
  | .stringify => "stringify"

/-- The native function of this name. -/
def ofName? (s : String) : Option Native :=
  all.find? fun n => n.name = s

/-- The number of arguments a native function takes. -/
def arity : Native → Nat
  | .clock | .rand => 0
  | _ => 1

end Native

end Lox
