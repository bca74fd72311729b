/-!
# Reading decimals

Decimal numerals, from the digits to the nearest double. The grammar of numerals as a whole text
(`Decimal.parse?`) allows a sign, digits with at most one point among or around them, and an
exponent.
-/

namespace Lox.Decimal

/-- The natural number that decimal digits spell. -/
def ofDigits (cs : List Char) : Nat :=
  cs.foldl (fun n c => 10 * n + (c.toNat - '0'.toNat)) 0

/-- No double is as large as ten to this power, and none but zero as small as its inverse. -/
def range : Int := 400

/-- The double nearest to `coefficient * 10 ^ exponent`. Exponents out of range are answered
without forming the power. -/
def nearest (coefficient : Nat) (exponent : Int) : Float :=
  if coefficient = 0 then 0.0
  else if range < exponent then 1.0 / 0.0
  else if exponent + (Nat.toDigits 10 coefficient).length < -range then 0.0
  else if 0 ≤ exponent then Float.ofScientific coefficient false exponent.toNat
  else Float.ofScientific coefficient true exponent.natAbs

/-- The double nearest to a numeral with these digits before and after its point. -/
def ofNumeral (before after : List Char) : Float :=
  nearest (ofDigits (before ++ after)) (-(after.length : Int))

/-- A sign in front of a text, if it has one: is it a minus, and what follows. -/
def takeSign : List Char → Bool × List Char
  | '+' :: cs => (false, cs)
  | '-' :: cs => (true, cs)
  | cs => (false, cs)

/-- The exponent after a numeral's digits: nothing, or `e` with an optional sign and digits. -/
def readExponent? : List Char → Option Int
  | [] => some 0
  | c :: cs =>
    if c = 'e' ∨ c = 'E' then
      let (negative, ds) := takeSign cs
      if ds ≠ [] ∧ ds.all Char.isDigit then
        some (if negative then -(ofDigits ds : Int) else ofDigits ds)
      else none
    else none

/-- The fraction after a numeral's whole digits, and the rest. -/
def takeFraction : List Char → List Char × List Char
  | '.' :: cs => cs.span Char.isDigit
  | cs => ([], cs)

/-- The double that a whole text spells as a decimal numeral. -/
def parse? (text : List Char) : Option Float :=
  let (negative, cs) := takeSign text
  let (before, rest) := cs.span Char.isDigit
  let (after, rest) := takeFraction rest
  if before = [] ∧ after = [] then none
  else
    (readExponent? rest).map fun exponent =>
      let x := nearest (ofDigits (before ++ after)) (exponent - after.length)
      if negative then -x else x

end Lox.Decimal
