import Lox.Tree
import Lox.Grammar.Rules

/-!
# Trees of a text inside another

Where a text stands inside a longer one, its tokens are on later lines and its references have other
sites, and nothing else about its trees is different. `shifted` says how a tree changes.
-/

namespace Lox

/-- The token so many lines later. -/
def Token.later (lines : Nat) (t : Token) : Token :=
  { t with line := t.line + lines }

/-- A token is of its kind on any line. -/
@[simp] theorem Token.later_kind (lines : Nat) (t : Token) : (t.later lines).kind = t.kind :=
  rfl

/-- No line later is where it was. -/
theorem Token.later_zero : Token.later 0 = id :=
  rfl

/-- A row of tokens may stay where it is. -/
theorem Token.map_later_zero (ts : List Token) : ts.map (Token.later 0) = ts :=
  List.map_id ts

/-- A test that the line of a token does not matter to. -/
def Token.Lineless (test : Token → Bool) : Prop :=
  ∀ lines t, test (t.later lines) = test t

/-- How many lines later a text stands in another, and what the sites of its references are
there. -/
structure Shift where
  lines : Nat
  sites : Site → Site

/-- A syntax error so many lines later. -/
def SyntaxError.later (lines : Nat) (e : SyntaxError) : SyntaxError :=
  { e with token := e.token.later lines }

mutual

/-- The expression inside the other text. -/
def Expr.shifted (s : Shift) : Expr → Expr
  | .literal value => .literal value
  | .variable site name => .variable (s.sites site) (name.later s.lines)
  | .assign site name value => .assign (s.sites site) (name.later s.lines) (value.shifted s)
  | .receiver site keyword => .receiver (s.sites site) (keyword.later s.lines)
  | .inherited site keyword method =>
    .inherited (s.sites site) (keyword.later s.lines) (method.later s.lines)
  | .group inner => .group (inner.shifted s)
  | .unary operator operand => .unary (operator.later s.lines) (operand.shifted s)
  | .binary left operator right =>
    .binary (left.shifted s) (operator.later s.lines) (right.shifted s)
  | .logical left operator right =>
    .logical (left.shifted s) (operator.later s.lines) (right.shifted s)
  | .conditional condition whenTrue whenFalse =>
    .conditional (condition.shifted s) (whenTrue.shifted s) (whenFalse.shifted s)
  | .call callee paren arguments =>
    .call (callee.shifted s) (paren.later s.lines) (Expr.shiftedAll s arguments)
  | .get object name => .get (object.shifted s) (name.later s.lines)
  | .set object name value => .set (object.shifted s) (name.later s.lines) (value.shifted s)
  | .function declaration => .function (declaration.shifted s)

/-- Expressions in a row inside the other text. -/
def Expr.shiftedAll (s : Shift) : List Expr → List Expr
  | [] => []
  | e :: es => e.shifted s :: Expr.shiftedAll s es

/-- An expression that may be absent, inside the other text. -/
def Expr.shiftedOption (s : Shift) : Option Expr → Option Expr
  | none => none
  | some e => some (e.shifted s)

/-- The statement inside the other text. -/
def Stmt.shifted (s : Shift) : Stmt → Stmt
  | .block body => .block (Stmt.shiftedAll s body)
  | .breakLoop keyword => .breakLoop (keyword.later s.lines)
  | .continueLoop keyword => .continueLoop (keyword.later s.lines)
  | .classDecl declaration => .classDecl (declaration.shifted s)
  | .empty => .empty
  | .expression value => .expression (value.shifted s)
  | .functionDecl declaration => .functionDecl (declaration.shifted s)
  | .conditional condition whenTrue whenFalse =>
    .conditional (condition.shifted s) (whenTrue.shifted s) (Stmt.shiftedOption s whenFalse)
  | .input keyword target => .input (keyword.later s.lines) (target.shifted s)
  | .print keyword value => .print (keyword.later s.lines) (value.shifted s)
  | .returnValue keyword value =>
    .returnValue (keyword.later s.lines) (Expr.shiftedOption s value)
  | .constant name value => .constant (name.later s.lines) (value.shifted s)
  | .var name value => .var (name.later s.lines) (Expr.shiftedOption s value)
  | .loop condition body increment =>
    .loop (condition.shifted s) (body.shifted s) (Expr.shiftedOption s increment)

/-- Statements in a row inside the other text. -/
def Stmt.shiftedAll (s : Shift) : List Stmt → List Stmt
  | [] => []
  | statement :: ss => statement.shifted s :: Stmt.shiftedAll s ss

/-- A statement that may be absent, inside the other text. -/
def Stmt.shiftedOption (s : Shift) : Option Stmt → Option Stmt
  | none => none
  | some statement => some (statement.shifted s)

/-- The function inside the other text. -/
def FunctionDecl.shifted (s : Shift) : FunctionDecl → FunctionDecl
  | ⟨name, keyword, parameters, body⟩ =>
    ⟨name.map (Token.later s.lines), keyword.later s.lines, parameters.map (Token.later s.lines),
      Stmt.shiftedAll s body⟩

/-- Functions in a row inside the other text. -/
def FunctionDecl.shiftedAll (s : Shift) : List FunctionDecl → List FunctionDecl
  | [] => []
  | d :: ds => d.shifted s :: FunctionDecl.shiftedAll s ds

/-- The class inside the other text. -/
def ClassDecl.shifted (s : Shift) : ClassDecl → ClassDecl
  | ⟨name, superclass, methods, classMethods, getters, setters⟩ =>
    ⟨name.later s.lines, Expr.shiftedOption s superclass, FunctionDecl.shiftedAll s methods,
      FunctionDecl.shiftedAll s classMethods, FunctionDecl.shiftedAll s getters,
      FunctionDecl.shiftedAll s setters⟩

end

namespace Grammar

/-- The members inside the other text. -/
def Members.shifted (s : Shift) (ms : Members) : Members :=
  ⟨FunctionDecl.shiftedAll s ms.methods, FunctionDecl.shiftedAll s ms.classMethods,
    FunctionDecl.shiftedAll s ms.getters, FunctionDecl.shiftedAll s ms.setters⟩

end Grammar

/-- What an operator joins is shifted with it. -/
theorem Level.shifted_join (s : Shift) (level : Level) (left right : Expr) (operator : Token) :
    (level.join left operator right).shifted s =
      level.join (left.shifted s) (operator.later s.lines) (right.shifted s) := by
  cases level <;> rfl

/-- Two rows of statements are shifted each by itself. -/
theorem Stmt.shiftedAll_append (s : Shift) (ss ss' : List Stmt) :
    Stmt.shiftedAll s (ss ++ ss') = Stmt.shiftedAll s ss ++ Stmt.shiftedAll s ss' := by
  induction ss with
  | nil => rfl
  | cons statement ss ih =>
    rw [List.cons_append, Stmt.shiftedAll, ih]
    rfl

/-- A statement that may be absent, as a row. -/
theorem Stmt.shiftedAll_toList (s : Shift) (statement : Option Stmt) :
    Stmt.shiftedAll s statement.toList = (statement.map (Stmt.shifted s)).toList := by
  cases statement <;> rfl

/-- The loop that stands for a `for` is shifted with its clauses; what is added to them has no
place. -/
theorem Grammar.forLoop_shifted (s : Shift) (start : Option Stmt)
    (condition increment : Option Expr) (body : Stmt) :
    (Grammar.forLoop start condition increment body).shifted s =
      Grammar.forLoop (Stmt.shiftedOption s start) (Expr.shiftedOption s condition)
        (Expr.shiftedOption s increment) (body.shifted s) := by
  cases start <;> cases condition <;> rfl

/-! ## Nothing moved -/

mutual

/-- An expression that is not moved stays as it is. -/
theorem Expr.shifted_same : ∀ e : Expr, e.shifted ⟨0, id⟩ = e
  | .literal _ | .variable _ _ | .receiver _ _ | .inherited _ _ _ => rfl
  | .assign _ _ value => by rw [Expr.shifted, Expr.shifted_same value]; rfl
  | .group inner => by rw [Expr.shifted, Expr.shifted_same inner]
  | .unary _ operand => by rw [Expr.shifted, Expr.shifted_same operand]; rfl
  | .binary left _ right => by
    rw [Expr.shifted, Expr.shifted_same left, Expr.shifted_same right]; rfl
  | .logical left _ right => by
    rw [Expr.shifted, Expr.shifted_same left, Expr.shifted_same right]; rfl
  | .conditional condition whenTrue whenFalse => by
    rw [Expr.shifted, Expr.shifted_same condition, Expr.shifted_same whenTrue,
      Expr.shifted_same whenFalse]
  | .call callee _ arguments => by
    rw [Expr.shifted, Expr.shifted_same callee, Expr.shiftedAll_same arguments]; rfl
  | .get object _ => by rw [Expr.shifted, Expr.shifted_same object]; rfl
  | .set object _ value => by
    rw [Expr.shifted, Expr.shifted_same object, Expr.shifted_same value]; rfl
  | .function d => by rw [Expr.shifted, FunctionDecl.shifted_same d]

theorem Expr.shiftedAll_same : ∀ es : List Expr, Expr.shiftedAll ⟨0, id⟩ es = es
  | [] => rfl
  | e :: es => by rw [Expr.shiftedAll, Expr.shifted_same e, Expr.shiftedAll_same es]

theorem Expr.shiftedOption_same : ∀ e : Option Expr, Expr.shiftedOption ⟨0, id⟩ e = e
  | none => rfl
  | some e => by rw [Expr.shiftedOption, Expr.shifted_same e]

/-- A statement that is not moved stays as it is. -/
theorem Stmt.shifted_same : ∀ s : Stmt, s.shifted ⟨0, id⟩ = s
  | .breakLoop _ | .continueLoop _ | .empty => rfl
  | .block body => by rw [Stmt.shifted, Stmt.shiftedAll_same body]
  | .classDecl d => by rw [Stmt.shifted, ClassDecl.shifted_same d]
  | .expression value => by rw [Stmt.shifted, Expr.shifted_same value]
  | .functionDecl d => by rw [Stmt.shifted, FunctionDecl.shifted_same d]
  | .conditional condition whenTrue whenFalse => by
    rw [Stmt.shifted, Expr.shifted_same condition, Stmt.shifted_same whenTrue,
      Stmt.shiftedOption_same whenFalse]
  | .input _ target => by rw [Stmt.shifted, Expr.shifted_same target]; rfl
  | .print _ value => by rw [Stmt.shifted, Expr.shifted_same value]; rfl
  | .returnValue _ value => by rw [Stmt.shifted, Expr.shiftedOption_same value]; rfl
  | .constant _ value => by rw [Stmt.shifted, Expr.shifted_same value]; rfl
  | .var _ value => by rw [Stmt.shifted, Expr.shiftedOption_same value]; rfl
  | .loop condition body increment => by
    rw [Stmt.shifted, Expr.shifted_same condition, Stmt.shifted_same body,
      Expr.shiftedOption_same increment]

/-- Statements that are not moved stay as they are. -/
theorem Stmt.shiftedAll_same : ∀ ss : List Stmt, Stmt.shiftedAll ⟨0, id⟩ ss = ss
  | [] => rfl
  | s :: ss => by rw [Stmt.shiftedAll, Stmt.shifted_same s, Stmt.shiftedAll_same ss]

theorem Stmt.shiftedOption_same : ∀ s : Option Stmt, Stmt.shiftedOption ⟨0, id⟩ s = s
  | none => rfl
  | some s => by rw [Stmt.shiftedOption, Stmt.shifted_same s]

/-- A function that is not moved stays as it is. -/
theorem FunctionDecl.shifted_same : ∀ d : FunctionDecl, d.shifted ⟨0, id⟩ = d
  | ⟨name, _, parameters, body⟩ => by
    rw [FunctionDecl.shifted, Stmt.shiftedAll_same body, Token.map_later_zero,
      Token.later_zero, Option.map_id]
    rfl

theorem FunctionDecl.shiftedAll_same : ∀ ds : List FunctionDecl,
    FunctionDecl.shiftedAll ⟨0, id⟩ ds = ds
  | [] => rfl
  | d :: ds => by
    rw [FunctionDecl.shiftedAll, FunctionDecl.shifted_same d, FunctionDecl.shiftedAll_same ds]

/-- A class that is not moved stays as it is. -/
theorem ClassDecl.shifted_same : ∀ d : ClassDecl, d.shifted ⟨0, id⟩ = d
  | ⟨_, superclass, methods, classMethods, getters, setters⟩ => by
    rw [ClassDecl.shifted, Expr.shiftedOption_same superclass,
      FunctionDecl.shiftedAll_same methods, FunctionDecl.shiftedAll_same classMethods,
      FunctionDecl.shiftedAll_same getters, FunctionDecl.shiftedAll_same setters]
    rfl

end

end Lox
