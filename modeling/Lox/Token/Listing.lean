import Lox.Token
import Lox.Decimal.Layout

/-!
# Listings of tokens

Two ways to show a token on a line: in three columns (kind, text, literal) and as a JSON object.
-/

namespace Lox.Token

/-! ## Columns -/

/-- A number in the literal column: with `.0` if it is whole and below `2 ^ 63`, else in full. -/
def numberColumn (x : Float) : String :=
  let parts := Decimal.Parts.ofFloat x
  match parts.whole? with
  | some n =>
    if n < Nat.pow 2 63 then
      (if parts.isNegative && n ≠ 0 then "-" else "") ++ toString n ++ ".0"
    else Decimal.plain x
  | none => Decimal.plain x

/-- What the token stands for, in the literal column. -/
def literalColumn (t : Token) : String :=
  match t.kind with
  | .string s => s
  | .number x => numberColumn x
  | _ => "null"

/-- The token in three columns. -/
def columns (t : Token) : String :=
  t.kind.name ++ " " ++ t.lexeme ++ " " ++ t.literalColumn

/-! ## JSON -/

/-- Numbers in JSON: the fewest digits that read back, with `.0` if whole, with a signed exponent
from `1e+16` up and below `1e-5`; what has no digits is `null`. -/
def jsonNumber : Decimal.Layout :=
  { tie := .toEven
    pointZero := true
    digitsBefore := some 16
    zerosAfter := some 4
    nan := "null"
    infinity := "null" }

/-- The JSON text of a number; infinities have no sign there. -/
def writeJsonNumber (x : Float) : String :=
  match Decimal.Parts.ofFloat x with
  | .infinite _ => jsonNumber.infinity
  | parts => jsonNumber.write parts

/-- A character inside a JSON string: quotes, backslashes and controls are escaped, everything
else stands for itself. -/
def jsonChar (c : Char) : List Char :=
  if c = '"' then ['\\', '"']
  else if c = '\\' then ['\\', '\\']
  else if c = '\x08' then ['\\', 'b']
  else if c = '\x0c' then ['\\', 'f']
  else if c = '\n' then ['\\', 'n']
  else if c = '\r' then ['\\', 'r']
  else if c = '\t' then ['\\', 't']
  else if c.toNat < 0x20 then
    ['\\', 'u', '0', '0', Nat.digitChar (c.toNat / 16), Nat.digitChar (c.toNat % 16)]
  else [c]

/-- A JSON string. -/
def jsonString (s : String) : String :=
  String.ofList ('"' :: (s.toList.flatMap jsonChar ++ ['"']))

/-- The kind of a token in JSON: its name, or an object with the literal under that name. -/
def jsonKind (kind : Kind) : String :=
  let name := jsonString kind.name
  match kind with
  | .string s => "\x7b" ++ name ++ ":" ++ jsonString s ++ "\x7d"
  | .number x => "\x7b" ++ name ++ ":" ++ writeJsonNumber x ++ "\x7d"
  | _ => name

/-- The token as a JSON object. -/
def json (t : Token) : String :=
  "\x7b\"token_type\":" ++ jsonKind t.kind ++ ",\"lexeme\":" ++ jsonString t.lexeme
    ++ ",\"line\":" ++ toString t.line ++ "\x7d"

end Lox.Token
