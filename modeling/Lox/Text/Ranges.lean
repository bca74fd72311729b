/-!
# Ranges of characters

Sets of characters given as ranges of code points, the form in which the character database
lists its properties.
-/

namespace Lox.Text

/-- A set of characters as closed ranges of code points, in increasing order. -/
abbrev Ranges := List (Nat × Nat)

/-- Does some range hold the character? -/
def Ranges.holds (ranges : Ranges) (c : Char) : Bool :=
  ranges.any fun r => r.1 ≤ c.toNat && c.toNat ≤ r.2

end Lox.Text
