import Lox.Value
import Lox.Decimal.Reading
import Lox.Text.Blank

/-!
# Values typed in

A line that answers an `input` statement is a constant if it spells one, a number if it spells
one between blanks, and otherwise the text itself.
-/

namespace Lox.Value

/-- The number that a text without outer blanks spells, words for NaN and the infinities
included. -/
def typedNumber? (text : String) : Option Float :=
  if text = "NaN" ∨ text = "+NaN" ∨ text = "-NaN" then some (0.0 / 0.0)
  else if text = "Infinity" ∨ text = "+Infinity" then some (1.0 / 0.0)
  else if text = "-Infinity" then some (-1.0 / 0.0)
  else Decimal.parse? text.toList

/-- The value of a line without its line end. -/
def ofTyped (line : String) : Value :=
  if line = "nil" then .nil
  else if line = "true" then .bool true
  else if line = "false" then .bool false
  else
    match typedNumber? (String.ofList (Text.trim line.toList)) with
    | some x => .number x
    | none => .string line

end Lox.Value
