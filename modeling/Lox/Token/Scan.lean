import Lox.Token
import Lox.Decimal.Reading

/-!
# Scanning

A text is cut into consecutive pieces, each as long as its class allows: blanks and comments, one
lexeme, or the region of one error. Lines are counted over the pieces afterwards, so the cut does
not depend on them. Scanning never stops at an error, and the tokens always end with one `eof`.
-/

namespace Lox

/-- Why a region of the text is no token. -/
inductive LexicalCause where
  | unexpected (c : Char)
  | unterminatedString
  | unterminatedComment
  deriving DecidableEq, Repr

/-- A region of the text that is no token, and the line to report. -/
structure LexicalError where
  line : Nat
  cause : LexicalCause
  deriving DecidableEq, Repr

/-- What is wrong with the region. -/
def LexicalCause.message : LexicalCause → String
  | .unexpected c => "Unexpected character: " ++ c.toString
  | .unterminatedString => "Unterminated string."
  | .unterminatedComment => "Unterminated block comment."

/-- What is wrong with the region. -/
def LexicalError.message (e : LexicalError) : String :=
  e.cause.message

/-- The error with its place. -/
def LexicalError.text (e : LexicalError) : String :=
  "[line " ++ toString e.line ++ "] Error: " ++ e.message

namespace Scan

/-! ## Character classes -/

/-- Blanks between tokens. -/
def isSpace (c : Char) : Bool :=
  c = ' ' || c = '\r' || c = '\t' || c = '\n'

/-- May a name or a keyword begin with the character? -/
def isWordStart (c : Char) : Bool :=
  c.isAlpha || c = '_'

/-- May a name or a keyword go on with the character? -/
def isWordRest (c : Char) : Bool :=
  c.isAlphanum || c = '_'

/-! ## Pieces -/

/-- What a piece of the text is. -/
inductive Content where
  | blank
  | token (kind : Kind)
  | error (cause : LexicalCause)
  deriving DecidableEq

/-- A piece of the text. -/
structure Piece where
  content : Content
  text : List Char
  deriving DecidableEq

/-- A block comment after its opening: its text up to and with the first closing, and what
follows. -/
def closeComment? : List Char → Option (List Char × List Char)
  | [] => none
  | [_] => none
  | c :: d :: cs =>
    if c = '*' ∧ d = '/' then
      some (['*', '/'], cs)
    else
      (closeComment? (d :: cs)).map fun (taken, rest) => (c :: taken, rest)

/-- The kind of a word: a keyword if it is reserved, else a name. -/
def wordKind (word : List Char) : Kind :=
  match Keyword.ofSpelling? (String.ofList word) with
  | some k => .keyword k
  | none => .identifier

/-- A word that begins with `c`, and what follows. -/
def word (c : Char) (cs : List Char) : Piece × List Char :=
  let text := c :: cs.takeWhile isWordRest
  (⟨.token (wordKind text), text⟩, cs.dropWhile isWordRest)

/-- A number that begins with the digit `c`, and what follows. A point belongs to it only between
digits. -/
def number (c : Char) (cs : List Char) : Piece × List Char :=
  let before := c :: cs.takeWhile Char.isDigit
  match cs.dropWhile Char.isDigit with
  | '.' :: d :: rest =>
    if d.isDigit then
      let after := d :: rest.takeWhile Char.isDigit
      (⟨.token (.number (Decimal.ofNumeral before after)), before ++ '.' :: after⟩,
        rest.dropWhile Char.isDigit)
    else
      (⟨.token (.number (Decimal.ofNumeral before [])), before⟩, '.' :: d :: rest)
  | rest => (⟨.token (.number (Decimal.ofNumeral before [])), before⟩, rest)

/-- A string after its opening quote, and what follows its closing quote. -/
def string (cs : List Char) : Piece × List Char :=
  let contents := cs.takeWhile (· != '"')
  match cs.dropWhile (· != '"') with
  | _ :: rest => (⟨.token (.string (String.ofList contents)), '"' :: contents ++ ['"']⟩, rest)
  | [] => (⟨.error .unterminatedString, '"' :: cs⟩, [])

/-- What begins with a slash: a comment to the end of the line, a block comment, or the mark. -/
def slash : List Char → Piece × List Char
  | '/' :: cs => (⟨.blank, '/' :: '/' :: cs.takeWhile (· != '\n')⟩, cs.dropWhile (· != '\n'))
  | '*' :: cs =>
    match closeComment? cs with
    | some (taken, rest) => (⟨.blank, '/' :: '*' :: taken⟩, rest)
    | none => (⟨.error .unterminatedComment, '/' :: '*' :: cs⟩, [])
  | cs => (⟨.token (.mark .slash), ['/']⟩, cs)

/-- The mark `c`, or the mark of `c` and an equals sign where one follows. -/
def either (c : Char) (alone withEqual : Mark) : List Char → Piece × List Char
  | '=' :: cs => (⟨.token (.mark withEqual), [c, '=']⟩, cs)
  | cs => (⟨.token (.mark alone), [c]⟩, cs)

/-- The marks of one character that no longer mark begins with. -/
def single? (c : Char) : Option Mark :=
  if c = '(' then some .leftParen
  else if c = ')' then some .rightParen
  else if c = '\x7b' then some .leftBrace
  else if c = '\x7d' then some .rightBrace
  else if c = ',' then some .comma
  else if c = '.' then some .dot
  else if c = '-' then some .minus
  else if c = '+' then some .plus
  else if c = ';' then some .semicolon
  else if c = '*' then some .star
  else if c = '?' then some .question
  else if c = ':' then some .colon
  else none

/-- The piece at the front of the text `c :: cs`, and what follows it. -/
def front (c : Char) (cs : List Char) : Piece × List Char :=
  if isSpace c then (⟨.blank, [c]⟩, cs)
  else if c = '/' then slash cs
  else if c = '"' then string cs
  else if c.isDigit then number c cs
  else if isWordStart c then word c cs
  else if c = '!' then either c .bang .bangEqual cs
  else if c = '=' then either c .equal .equalEqual cs
  else if c = '<' then either c .less .lessEqual cs
  else if c = '>' then either c .greater .greaterEqual cs
  else
    match single? c with
    | some m => (⟨.token (.mark m), [c]⟩, cs)
    | none => (⟨.error (.unexpected c), [c]⟩, cs)

/-- The pieces of a text, of which `fuel` bounds the number. -/
def piecesUpTo : Nat → List Char → List Piece
  | _, [] => []
  | 0, _ :: _ => []
  | fuel + 1, c :: cs =>
    let (piece, rest) := front c cs
    piece :: piecesUpTo fuel rest

/-- The pieces of a text. There are at most as many as characters, since none is empty. -/
def pieces (text : List Char) : List Piece :=
  piecesUpTo text.length text

/-! ## Tokens and errors with their lines -/

/-- One result of scanning. -/
inductive Item where
  | token (t : Token)
  | error (e : LexicalError)
  deriving DecidableEq

/-- The number of line ends in a text. -/
def newlines (text : List Char) : Nat :=
  text.count '\n'

/-- The items of pieces that begin on line `line`, and the end of the text. A token's line is the
one on which it ends; so is that of an unterminated string, which ends with the text. -/
def itemsFrom (line : Nat) : List Piece → List Item
  | [] => [.token (Token.endOf line)]
  | p :: ps =>
    let lineAfter := line + newlines p.text
    match p.content with
    | .blank => itemsFrom lineAfter ps
    | .token kind => .token ⟨kind, String.ofList p.text, lineAfter⟩ :: itemsFrom lineAfter ps
    | .error .unterminatedString =>
      .error ⟨lineAfter, .unterminatedString⟩ :: itemsFrom lineAfter ps
    | .error cause => .error ⟨line, cause⟩ :: itemsFrom lineAfter ps

/-- The token of an item that is one. -/
def Item.token? : Item → Option Token
  | .token t => some t
  | .error _ => none

/-- The error of an item that is one. -/
def Item.error? : Item → Option LexicalError
  | .token _ => none
  | .error e => some e

end Scan

/-- Tokens and errors of a text, in their order. -/
def scan (source : String) : List Scan.Item :=
  Scan.itemsFrom 1 (Scan.pieces source.toList)

/-- The tokens of a text, errors left out. -/
def scanTokens (source : String) : List Token :=
  (scan source).filterMap Scan.Item.token?

/-- The lexical errors of a text. -/
def scanErrors (source : String) : List LexicalError :=
  (scan source).filterMap Scan.Item.error?

end Lox
