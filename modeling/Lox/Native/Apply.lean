import Lox.Value
import Lox.Fault
import Lox.Host
import Lox.Text.Case

/-!
# Applying native functions

What each native function makes of its arguments. A function looks at its first argument only.
-/

namespace Lox.Native

/-- The first argument, which must be a number. -/
def number (n : Native) : List Value → Except NativeFault Float
  | .number x :: _ => .ok x
  | v :: _ => .error (.wrongKind n "number" v.typeName)
  | [] => .error (.missing n "number")

/-- The first argument, which must be a string. -/
def string (n : Native) : List Value → Except NativeFault String
  | .string s :: _ => .ok s
  | v :: _ => .error (.wrongKind n "string" v.typeName)
  | [] => .error (.missing n "string")

/-- Is the value a number? -/
def isNumberValue : Value → Bool
  | .number _ => true
  | _ => false

/-- Is the value a string? -/
def isStringValue : Value → Bool
  | .string _ => true
  | _ => false

/-- What a native function that asks nothing of the world makes of its arguments. A number is
rounded to the nearest whole one, a half upwards. -/
def compute (n : Native) (arguments : List Value) : Except NativeFault Value :=
  match n with
  | .clock | .rand => .ok .nil
  | .round => return .number ((← n.number arguments) + 0.5).floor
  | .abs => return .number (← n.number arguments).abs
  | .lowercase => return .string (Text.lowercase (← n.string arguments))
  | .uppercase => return .string (Text.uppercase (← n.string arguments))
  | .isNumber => .ok (.bool (arguments.head?.any isNumberValue))
  | .isString => .ok (.bool (arguments.head?.any isStringValue))
  | .stringify => .ok (.string ((arguments.head?.map Value.text).getD ""))

/-- A native function applied to its arguments, and the world afterwards. -/
def apply (n : Native) (arguments : List Value) (host : Host) : Except NativeFault Value × Host :=
  match n with
  | .clock =>
    let (time, host) := host.readClock
    (.ok (.number time), host)
  | .rand =>
    let (x, host) := host.draw
    (.ok (.number x), host)
  | _ => (n.compute arguments, host)

end Lox.Native
