import Lox.Decimal.Shortest

/-!
# Writing numbers down

A `Layout` holds the decisions in which number formats differ: where the point goes, when an
exponent is used, how a tie between two shortest decimals is broken, and the words for what has no
digits.
-/

namespace Lox.Decimal

/-- How a format writes numbers. -/
structure Layout where
  /-- The choice between two equally near decimals of the fewest digits. -/
  tie : Tie
  /-- Is a whole number written with `.0`? -/
  pointZero : Bool
  /-- The most digits before the point; a larger number has an exponent. `none`: no limit. -/
  digitsBefore : Option Nat
  /-- The most zeros right after the point; a smaller number has an exponent. `none`: no limit. -/
  zerosAfter : Option Nat
  /-- The word for what is not a number. -/
  nan : String
  /-- The word for infinity, without a sign. -/
  infinity : String

/-- The digits of a natural number. -/
def digits (n : Nat) : List Char :=
  Nat.toDigits 10 n

/-- Digits `cs` with the point after the first `p` of them, filled up with zeros. -/
def positional (pointZero : Bool) (cs : List Char) (p : Int) : List Char :=
  if p ≤ 0 then
    ['0', '.'] ++ List.replicate (-p).toNat '0' ++ cs
  else if p.toNat < cs.length then
    cs.take p.toNat ++ '.' :: cs.drop p.toNat
  else
    cs ++ List.replicate (p.toNat - cs.length) '0' ++ (if pointZero then ['.', '0'] else [])

/-- Digits `cs` with one digit before the point and an exponent that always has a sign. -/
def scientific (cs : List Char) (p : Int) : List Char :=
  let exponent := p - 1
  cs.take 1 ++ (if cs.length ≤ 1 then [] else '.' :: cs.drop 1)
    ++ ['e', if exponent < 0 then '-' else '+'] ++ digits exponent.natAbs

/-- A positive number under a layout. -/
def Layout.positive (layout : Layout) (d : Digits) : List Char :=
  let cs := digits d.coefficient
  let p := d.exponent + cs.length
  let large := layout.digitsBefore.any fun n => (n : Int) < p
  let small := layout.zerosAfter.any fun n => p < -(n : Int)
  if large || small then scientific cs p else positional layout.pointZero cs p

/-- The text of a number under a layout. -/
def Layout.write (layout : Layout) (parts : Parts) : String :=
  match parts with
  | .nan => layout.nan
  | .infinite negative => (if negative then "-" else "") ++ layout.infinity
  | .finite negative mantissa exponent =>
    let magnitude :=
      if mantissa = 0 then '0' :: (if layout.pointZero then ['.', '0'] else [])
      else layout.positive (Digits.shortest layout.tie mantissa exponent)
    String.ofList (if negative then '-' :: magnitude else magnitude)

/-- The number in full, without an exponent: the fewest digits that read back, of two equally near
decimals the larger, and no `.0` behind a whole number. -/
def Layout.plain : Layout :=
  { tie := .up
    pointZero := false
    digitsBefore := none
    zerosAfter := none
    nan := "NaN"
    infinity := "inf" }

/-- The text of a double in full. -/
def plain (x : Float) : String :=
  Layout.plain.write (.ofFloat x)

/-- A whole double in full and exactly, with `.0`; `none` if it is not whole. -/
def exactWhole? (x : Float) : Option String :=
  let parts := Parts.ofFloat x
  parts.whole?.map fun n =>
    (if parts.isNegative then "-" else "") ++ toString n ++ ".0"

end Lox.Decimal
