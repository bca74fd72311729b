/-!
# Doubles taken apart

A finite double is a whole number of units `2 ^ exponent`. Everything exact that is said about a
double (its digits, whether it is whole) is said about these parts, in whole numbers.
-/

namespace Lox.Decimal

/-- A double: not a number, an infinity, or the number `±mantissa * 2 ^ exponent`. -/
inductive Parts where
  | nan
  | infinite (negative : Bool)
  | finite (negative : Bool) (mantissa : Nat) (exponent : Int)
  deriving DecidableEq

/-- The parts that the 64 bits of a double spell. -/
def Parts.ofBits (bits : Nat) : Parts :=
  let negative := decide (bits / Nat.pow 2 63 % 2 = 1)
  let biased : Nat := bits / Nat.pow 2 52 % Nat.pow 2 11
  let fraction : Nat := bits % Nat.pow 2 52
  if biased = 2047 then
    if fraction = 0 then .infinite negative else .nan
  else if biased = 0 then
    .finite negative fraction (-1074)
  else
    .finite negative (Nat.pow 2 52 + fraction) ((biased : Int) - 1075)

/-- The parts of a double. -/
def Parts.ofFloat (x : Float) : Parts :=
  .ofBits x.toBits.toNat

/-- The whole number that a double is, without its sign; `none` if it has a fraction or is not
finite. -/
def Parts.whole? : Parts → Option Nat
  | .finite _ mantissa exponent =>
    if 0 ≤ exponent then
      some (mantissa * Nat.pow 2 exponent.toNat)
    else if mantissa % Nat.pow 2 exponent.natAbs = 0 then
      some (mantissa / Nat.pow 2 exponent.natAbs)
    else
      none
  | _ => none

/-- Is the sign bit of a number set? A NaN counts as unsigned. -/
def Parts.isNegative : Parts → Bool
  | .finite negative _ _ => negative
  | .infinite negative => negative
  | .nan => false

end Lox.Decimal
