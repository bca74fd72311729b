/-!
# Tokens

The words of a program: marks, keywords, names, string and number literals, and the end of the
text. A token keeps the text it was read from and the line on which it ends, so that every error
can name its place.
-/

namespace Lox

/-- Punctuation and operators. -/
inductive Mark where
  | leftParen
  | rightParen
  | leftBrace
  | rightBrace
  | comma
  | dot
  | minus
  | plus
  | semicolon
  | slash
  | star
  | question
  | colon
  | bang
  | bangEqual
  | equal
  | equalEqual
  | greater
  | greaterEqual
  | less
  | lessEqual
  deriving DecidableEq, Repr

/-- Reserved words. -/
inductive Keyword where
  | andKw
  | breakKw
  | classKw
  | continueKw
  | elseKw
  | falseKw
  | funKw
  | forKw
  | ifKw
  | inputKw
  | nilKw
  | orKw
  | printKw
  | returnKw
  | superKw
  | thisKw
  | trueKw
  | valKw
  | varKw
  | whileKw
  deriving DecidableEq, Repr

/-- The kind of a token. Literals carry what they stand for. -/
inductive Kind where
  | mark (mark : Mark)
  | keyword (keyword : Keyword)
  | identifier
  | string (contents : String)
  | number (value : Float)
  | eof
  deriving DecidableEq

/-- A token: its kind, the text it was read from, and the line on which that text ends. -/
structure Token where
  kind : Kind
  lexeme : String
  line : Nat
  deriving DecidableEq

/-- A constant that a token can stand for by itself. -/
inductive Literal where
  | number (value : Float)
  | string (contents : String)
  | true
  | false
  | nil
  deriving DecidableEq

/-! ## Spellings and names -/

/-- The text of a mark in a program. -/
def Mark.spelling : Mark → String
  | .leftParen => "("
  | .rightParen => ")"
  | .leftBrace => "\x7b"
  | .rightBrace => "\x7d"
  | .comma => ","
  | .dot => "."
  | .minus => "-"
  | .plus => "+"
  | .semicolon => ";"
  | .slash => "/"
  | .star => "*"
  | .question => "?"
  | .colon => ":"
  | .bang => "!"
  | .bangEqual => "!="
  | .equal => "="
  | .equalEqual => "=="
  | .greater => ">"
  | .greaterEqual => ">="
  | .less => "<"
  | .lessEqual => "<="

/-- The name of a mark in listings of tokens. -/
def Mark.name : Mark → String
  | .leftParen => "LEFT_PAREN"
  | .rightParen => "RIGHT_PAREN"
  | .leftBrace => "LEFT_BRACE"
  | .rightBrace => "RIGHT_BRACE"
  | .comma => "COMMA"
  | .dot => "DOT"
  | .minus => "MINUS"
  | .plus => "PLUS"
  | .semicolon => "SEMICOLON"
  | .slash => "SLASH"
  | .star => "STAR"
  | .question => "QUESTION"
  | .colon => "COLON"
  | .bang => "BANG"
  | .bangEqual => "BANG_EQUAL"
  | .equal => "EQUAL"
  | .equalEqual => "EQUAL_EQUAL"
  | .greater => "GREATER"
  | .greaterEqual => "GREATER_EQUAL"
  | .less => "LESS"
  | .lessEqual => "LESS_EQUAL"

/-- Every mark. -/
def Mark.all : List Mark :=
  [.leftParen, .rightParen, .leftBrace, .rightBrace, .comma, .dot, .minus, .plus, .semicolon,
    .slash, .star, .question, .colon, .bang, .bangEqual, .equal, .equalEqual, .greater,
    .greaterEqual, .less, .lessEqual]

/-- No mark is left out. -/
theorem Mark.mem_all (m : Mark) : m ∈ Mark.all := by
  cases m <;> decide

/-- The reserved word itself. -/
def Keyword.spelling : Keyword → String
  | .andKw => "and"
  | .breakKw => "break"
  | .classKw => "class"
  | .continueKw => "continue"
  | .elseKw => "else"
  | .falseKw => "false"
  | .funKw => "fun"
  | .forKw => "for"
  | .ifKw => "if"
  | .inputKw => "input"
  | .nilKw => "nil"
  | .orKw => "or"
  | .printKw => "print"
  | .returnKw => "return"
  | .superKw => "super"
  | .thisKw => "this"
  | .trueKw => "true"
  | .valKw => "val"
  | .varKw => "var"
  | .whileKw => "while"

/-- The name of a keyword in listings of tokens. -/
def Keyword.name : Keyword → String
  | .andKw => "AND"
  | .breakKw => "BREAK"
  | .classKw => "CLASS"
  | .continueKw => "CONTINUE"
  | .elseKw => "ELSE"
  | .falseKw => "FALSE"
  | .funKw => "FUN"
  | .forKw => "FOR"
  | .ifKw => "IF"
  | .inputKw => "INPUT"
  | .nilKw => "NIL"
  | .orKw => "OR"
  | .printKw => "PRINT"
  | .returnKw => "RETURN"
  | .superKw => "SUPER"
  | .thisKw => "THIS"
  | .trueKw => "TRUE"
  | .valKw => "VAL"
  | .varKw => "VAR"
  | .whileKw => "WHILE"

/-- Every keyword. -/
def Keyword.all : List Keyword :=
  [.andKw, .breakKw, .classKw, .continueKw, .elseKw, .falseKw, .funKw, .forKw, .ifKw, .inputKw,
    .nilKw, .orKw, .printKw, .returnKw, .superKw, .thisKw, .trueKw, .valKw, .varKw, .whileKw]

/-- No keyword is left out. -/
theorem Keyword.mem_all (k : Keyword) : k ∈ Keyword.all := by
  cases k <;> decide

/-- The keyword with this spelling. -/
def Keyword.ofSpelling? (s : String) : Option Keyword :=
  Keyword.all.find? fun k => k.spelling = s

/-- The name of a kind in listings of tokens, without its payload. -/
def Kind.name : Kind → String
  | .mark m => m.name
  | .keyword k => k.name
  | .identifier => "IDENTIFIER"
  | .string _ => "STRING"
  | .number _ => "NUMBER"
  | .eof => "EOF"

/-- Every kind, literals with an empty payload. -/
def Kind.all : List Kind :=
  Mark.all.map Kind.mark ++ Keyword.all.map Kind.keyword
    ++ ([.identifier, .string "", .number 0, .eof] : List Kind)

/-- The kind that a name in listings stands for, literals with an empty payload. -/
def Kind.ofName? (s : String) : Option Kind :=
  Kind.all.find? fun k => k.name = s

/-- Are two kinds the same, whatever literals they carry? -/
def Kind.agrees : Kind → Kind → Bool
  | .mark a, .mark b => a = b
  | .keyword a, .keyword b => a = b
  | .identifier, .identifier => true
  | .string _, .string _ => true
  | .number _, .number _ => true
  | .eof, .eof => true
  | _, _ => false

namespace Token

/-- The token that ends a text whose last line is `line`. -/
def endOf (line : Nat) : Token :=
  ⟨.eof, "", line⟩

/-- Does the token end its text? -/
def isEnd (t : Token) : Bool :=
  match t.kind with
  | .eof => true
  | _ => false

/-- Is the token this mark? -/
def isMark (mark : Mark) (t : Token) : Bool :=
  match t.kind with
  | .mark m => m = mark
  | _ => false

/-- Is the token this keyword? -/
def isKeyword (keyword : Keyword) (t : Token) : Bool :=
  match t.kind with
  | .keyword k => k = keyword
  | _ => false

/-- Is the token a name? -/
def isIdentifier (t : Token) : Bool :=
  match t.kind with
  | .identifier => true
  | _ => false

/-- A token is a mark by its kind. -/
theorem isMark_iff {m : Mark} {t : Token} : t.isMark m = true ↔ t.kind = .mark m := by
  unfold isMark
  split <;> simp_all

/-- A token is a keyword by its kind. -/
theorem isKeyword_iff {k : Keyword} {t : Token} : t.isKeyword k = true ↔ t.kind = .keyword k := by
  unfold isKeyword
  split <;> simp_all

/-- A token is a name by its kind. -/
theorem isIdentifier_iff {t : Token} : t.isIdentifier = true ↔ t.kind = .identifier := by
  unfold isIdentifier
  split <;> simp_all

/-- A token is an end by its kind. -/
theorem isEnd_iff {t : Token} : t.isEnd = true ↔ t.kind = .eof := by
  unfold isEnd
  split <;> simp_all

/-- The same token under another text. -/
def renamed (t : Token) (lexeme : String) : Token :=
  { t with lexeme }

/-- Where the token stands, as error messages say it. -/
def location (t : Token) : String :=
  if t.isEnd then "end" else "'" ++ t.lexeme ++ "'"

/-- The constant that the token stands for by itself, if it does. -/
def literal? (t : Token) : Option Literal :=
  match t.kind with
  | .number x => some (.number x)
  | .string s => some (.string s)
  | .keyword .trueKw => some .true
  | .keyword .falseKw => some .false
  | .keyword .nilKw => some .nil
  | _ => none

end Token

end Lox
