import Lox.Decimal.Binary

/-!
# The shortest decimal that reads back

Among the decimals that round to a given double, some have the fewest digits; of those the one
nearest to the double is chosen. `Digits.shortest` tries one digit, two digits, … and on each such
grid looks at the double's two neighbours only: if any point of the grid rounds to the double, one
of these two does.
-/

namespace Lox.Decimal

/-- The number `coefficient * 10 ^ exponent`. -/
structure Digits where
  coefficient : Nat
  exponent : Int
  deriving DecidableEq, Repr

/-- Which neighbour is taken when the double lies exactly between both. -/
inductive Tie where
  | up
  | toEven
  deriving DecidableEq, Repr

/-- The number of decimal digits of a natural number; zero has one. -/
def width (n : Nat) : Nat :=
  (Nat.toDigits 10 n).length

/-- The powers of ten tried lie far enough below any double for its digits to be counted. -/
def deepest : Nat := 350

/-- The number `p` with `10 ^ (p - 1) ≤ mantissa * 2 ^ exponent < 10 ^ p`, for a double that is
not zero. -/
def magnitude (mantissa : Nat) (exponent : Int) : Int :=
  let raised := mantissa * Nat.pow 2 exponent.toNat * Nat.pow 10 deepest
  (width (raised / Nat.pow 2 (-exponent).toNat) : Int) - deepest

/-- A double on a decimal grid: with `scale` and `cell` the double is `4 * mantissa * scale` and
the grid's points are the multiples of `cell`, in one common unit. -/
structure Grid where
  scale : Nat
  cell : Nat
  deriving Repr

/-- The grid of multiples of `10 ^ power` under a double with this exponent. -/
def Grid.of (exponent power : Int) : Grid :=
  { scale := Nat.pow 2 (exponent - 2).toNat * Nat.pow 10 (-power).toNat
    cell := Nat.pow 2 (2 - exponent).toNat * Nat.pow 10 power.toNat }

/-- Does the point `k` of the grid round to the double `mantissa * 2 ^ exponent`? The two ends of
the interval belong to it when the mantissa is even. Below a power of two the doubles are twice as
close. -/
def Grid.reaches (g : Grid) (mantissa : Nat) (exponent : Int) (k : Nat) : Bool :=
  let gap := if mantissa = Nat.pow 2 52 ∧ exponent ≠ -1074 then 1 else 2
  let low := (4 * mantissa - gap) * g.scale
  let high := (4 * mantissa + 2) * g.scale
  let point := k * g.cell
  if mantissa % 2 = 0 then low ≤ point && point ≤ high else low < point && point < high

/-- The point of the grid that stands for the double, if one rounds to it: the nearer of the two
neighbours that do, and on a tie the one that `tie` asks for. -/
def Grid.choose? (g : Grid) (tie : Tie) (mantissa : Nat) (exponent : Int) : Option Nat :=
  let value := 4 * mantissa * g.scale
  let k := value / g.cell
  let toLower := value - k * g.cell
  let toUpper := (k + 1) * g.cell - value
  match g.reaches mantissa exponent k, g.reaches mantissa exponent (k + 1) with
  | false, false => none
  | true, false => some k
  | false, true => some (k + 1)
  | true, true =>
    if toLower < toUpper then some k
    else if toUpper < toLower then some (k + 1)
    else
      match tie with
      | .up => some (k + 1)
      | .toEven => some (if k % 2 = 0 then k else k + 1)

/-- The same number without zeros at the end of its coefficient; `fuel` bounds their number. -/
def Digits.trim : Nat → Digits → Digits
  | 0, d => d
  | fuel + 1, d =>
    if d.coefficient ≠ 0 ∧ d.coefficient % 10 = 0 then
      Digits.trim fuel ⟨d.coefficient / 10, d.exponent + 1⟩
    else d

/-- The shortest decimal that rounds to the positive double `mantissa * 2 ^ exponent`. Seventeen
digits always suffice. -/
def Digits.shortest (tie : Tie) (mantissa : Nat) (exponent : Int) : Digits :=
  let p := magnitude mantissa exponent
  let found : Option Digits := (List.range 17).findSome? fun n =>
    let power := p - (n + 1 : Nat)
    ((Grid.of exponent power).choose? tie mantissa exponent).map fun k => ⟨k, power⟩
  (found.getD ⟨0, 0⟩).trim 20

end Lox.Decimal
