import Lox.Tree
import Lox.Grammar.Problem

/-!
# Reading tokens in order

A `Cursor` is the state of a parse: the tokens still unread, the token that stands at their end,
the errors reported so far, and the next free site. Tokens from the first end on are never seen.
A rule that cannot go on refuses with an error; the cursor stays where it stopped, and
`Cursor.resume` finds the next statement.
-/

namespace Lox

/-- The state of a parse. No unread token is an end. -/
structure Cursor where
  unread : List Token
  stop : Token
  errors : List SyntaxError
  nextSite : Site

/-- Why a rule gives no result. Running out of fuel is no error of the program: the fuel that
`Program.parse` and `Expr.parse` hand out is meant to suffice for every row of tokens. -/
inductive Refusal where
  | problem (e : SyntaxError)
  | outOfFuel
  deriving DecidableEq

/-- A rule of the grammar. -/
abbrev Parser := EStateM Refusal Cursor

/-- What stands at the end of a row of tokens that has no end of its own. -/
def Token.missingEnd : Token :=
  Token.endOf 0

namespace Cursor

/-- The start of a parse. -/
def start (tokens : List Token) (nextSite : Site) : Cursor :=
  { unread := tokens.takeWhile fun t => !t.isEnd
    stop := (tokens.find? Token.isEnd).getD Token.missingEnd
    errors := []
    nextSite }

/-- The token that comes next, the end if all are read. -/
def next (c : Cursor) : Token :=
  c.unread.headD c.stop

/-- Is the next token one that `p` holds of? Never at the end. -/
def sees (c : Cursor) (p : Token → Bool) : Bool :=
  c.unread.head?.any p

/-- Is the token after the next one that `p` holds of? -/
def seesSecond (c : Cursor) (p : Token → Bool) : Bool :=
  c.unread.tail.head?.any p

/-- The cursor with one more error. -/
def report (c : Cursor) (e : SyntaxError) : Cursor :=
  { c with errors := c.errors ++ [e] }

end Cursor

/-- Keywords at which a statement begins. -/
def Token.beginsStatement (t : Token) : Bool :=
  match t.kind with
  | .keyword .classKw | .keyword .funKw | .keyword .valKw | .keyword .varKw | .keyword .forKw
  | .keyword .ifKw | .keyword .inputKw | .keyword .whileKw | .keyword .printKw
  | .keyword .returnKw | .keyword .breakKw | .keyword .continueKw => true
  | _ => false

/-- The tokens from the next statement on, after `last` was passed over: right behind a
semicolon, or at a keyword that begins a statement. -/
def resumeAfter (last : Token) : List Token → List Token
  | [] => []
  | t :: ts =>
    if last.isMark .semicolon || t.beginsStatement then t :: ts else resumeAfter t ts

/-- The cursor at the next statement. The token at which the error was found is always passed
over. -/
def Cursor.resume (c : Cursor) : Cursor :=
  match c.unread with
  | [] => c
  | t :: ts => { c with unread := resumeAfter t ts }

namespace Parser

/-- Gives up for want of fuel. -/
def outOfFuel {α : Type} : Parser α :=
  throw .outOfFuel

/-- Gives up with an error at `token`. -/
def refuse {α : Type} (rule : Rule) (token : Token) (problem : Problem) : Parser α :=
  throw (.problem ⟨rule, token, problem⟩)

/-- Reports an error and goes on. -/
def report (rule : Rule) (token : Token) (problem : Problem) : Parser Unit :=
  modify fun c => c.report ⟨rule, token, problem⟩

/-- The token that comes next. -/
def peek : Parser Token := do
  return (← get).next

/-- Is the next token one that `p` holds of? -/
def sees (p : Token → Bool) : Parser Bool := do
  return (← get).sees p

/-- Is the token after the next one that `p` holds of? -/
def seesSecond (p : Token → Bool) : Parser Bool := do
  return (← get).seesSecond p

/-- Reads the next token if `p` holds of it. -/
def take? (p : Token → Bool) : Parser (Option Token) := fun c =>
  match c.unread with
  | t :: ts => if p t then .ok (some t) { c with unread := ts } else .ok none c
  | [] => .ok none c

/-- Reads the next token if `p` holds of it and says whether it did. -/
def takes (p : Token → Bool) : Parser Bool := do
  return (← take? p).isSome

/-- Reads the next token, of which `p` must hold. -/
def expect (p : Token → Bool) (rule : Rule) (problem : Problem) : Parser Token := do
  match ← take? p with
  | some t => return t
  | none => refuse rule (← peek) problem

/-- A site that no reference has yet. -/
def freshSite : Parser Site :=
  modifyGet fun c => (c.nextSite, { c with nextSite := c.nextSite + 1 })

/-- Runs a rule; if it refuses, reports the error and goes to the next statement. -/
def recovering {α : Type} (p : Parser α) : Parser (Option α) := fun c =>
  match p c with
  | .ok a c => .ok (some a) c
  | .error (.problem e) c => .ok none (c.report e).resume
  | .error .outOfFuel c => .error .outOfFuel c

end Parser

end Lox
