import Lox.Tree

/-!
# Well-formed trees

What the types of syntax trees leave open and running a tree relies on: operators are operators of
their kind of node, superclasses and the targets of `input` are variables, declared functions and
members have names, getters have no parameters, and the name of a setter is the one written with an
equals sign behind it. A tree is formed if this holds at each of its nodes.
-/

namespace Lox

/-- The marks of binary operators. -/
def binaryMarks : List Mark :=
  [.comma, .equalEqual, .bangEqual, .plus, .minus, .star, .slash, .greater, .greaterEqual, .less,
    .lessEqual]

namespace Token

/-- The token is an operator of a binary node. -/
def IsBinary (t : Token) : Prop :=
  ∃ m ∈ binaryMarks, t.kind = .mark m

/-- The token is `and` or `or`. -/
def IsLogical (t : Token) : Prop :=
  t.kind = .keyword .andKw ∨ t.kind = .keyword .orKw

/-- The token is `!` or `-`. -/
def IsUnary (t : Token) : Prop :=
  t.kind = .mark .bang ∨ t.kind = .mark .minus

end Token

/-- The expression is a variable. -/
def Expr.IsVariable (e : Expr) : Prop :=
  ∃ site name, e = .variable site name

namespace FunctionDecl

/-- The function has a name. -/
def Named (d : FunctionDecl) : Prop :=
  ∃ name, d.name = some name

/-- The function has the name that it was written with and an equals sign. -/
def NamedAsSetter (d : FunctionDecl) : Prop :=
  ∃ name, d.name = some name ∧ name.lexeme = d.keyword.lexeme ++ "="

end FunctionDecl

/-- The members of a class are named and take parameters as their kinds have it. -/
structure ClassDecl.MembersFormed (d : ClassDecl) : Prop where
  methods : ∀ m ∈ d.methods, m.Named
  classMethods : ∀ m ∈ d.classMethods, m.Named
  getters : ∀ m ∈ d.getters, m.Named ∧ m.parameters = []
  setters : ∀ m ∈ d.setters, m.NamedAsSetter

mutual

/-- An expression formed at all its nodes. -/
def Expr.Formed : Expr → Prop
  | .literal _ | .variable _ _ | .receiver _ _ | .inherited _ _ _ => True
  | .assign _ _ value => value.Formed
  | .group inner => inner.Formed
  | .unary operator operand => operator.IsUnary ∧ operand.Formed
  | .binary left operator right => left.Formed ∧ operator.IsBinary ∧ right.Formed
  | .logical left operator right => left.Formed ∧ operator.IsLogical ∧ right.Formed
  | .conditional condition whenTrue whenFalse =>
    condition.Formed ∧ whenTrue.Formed ∧ whenFalse.Formed
  | .call callee _ arguments => callee.Formed ∧ Expr.FormedAll arguments
  | .get object _ => object.Formed
  | .set object _ value => object.Formed ∧ value.Formed
  | .function d => d.Formed

/-- Expressions formed at all their nodes. -/
def Expr.FormedAll : List Expr → Prop
  | [] => True
  | e :: es => e.Formed ∧ Expr.FormedAll es

/-- An expression formed at all its nodes, or none. -/
def Expr.FormedOption : Option Expr → Prop
  | none => True
  | some e => e.Formed

/-- A statement formed at all its nodes. -/
def Stmt.Formed : Stmt → Prop
  | .block body => Stmt.FormedAll body
  | .breakLoop _ | .continueLoop _ | .empty => True
  | .classDecl d => d.Formed
  | .expression value => value.Formed
  | .functionDecl d => d.Named ∧ d.Formed
  | .conditional condition whenTrue whenFalse =>
    condition.Formed ∧ whenTrue.Formed ∧ Stmt.FormedOption whenFalse
  | .input _ target => target.IsVariable
  | .print _ value => value.Formed
  | .returnValue _ value => Expr.FormedOption value
  | .constant _ value => value.Formed
  | .var _ value => Expr.FormedOption value
  | .loop condition body increment =>
    condition.Formed ∧ body.Formed ∧ Expr.FormedOption increment

/-- Statements formed at all their nodes. -/
def Stmt.FormedAll : List Stmt → Prop
  | [] => True
  | s :: ss => s.Formed ∧ Stmt.FormedAll ss

/-- A statement formed at all its nodes, or none. -/
def Stmt.FormedOption : Option Stmt → Prop
  | none => True
  | some s => s.Formed

/-- A function with a body formed at all its nodes. -/
def FunctionDecl.Formed : FunctionDecl → Prop
  | ⟨_, _, _, body⟩ => Stmt.FormedAll body

/-- Functions with bodies formed at all their nodes. -/
def FunctionDecl.FormedAll : List FunctionDecl → Prop
  | [] => True
  | d :: ds => d.Formed ∧ FunctionDecl.FormedAll ds

/-- A class formed at all its nodes. -/
def ClassDecl.Formed : ClassDecl → Prop
  | ⟨name, superclass, methods, classMethods, getters, setters⟩ =>
    (∀ clause ∈ superclass, clause.IsVariable)
      ∧ ClassDecl.MembersFormed ⟨name, superclass, methods, classMethods, getters, setters⟩
      ∧ FunctionDecl.FormedAll methods ∧ FunctionDecl.FormedAll classMethods
      ∧ FunctionDecl.FormedAll getters ∧ FunctionDecl.FormedAll setters

end

theorem FunctionDecl.Formed.body {d : FunctionDecl} (h : d.Formed) : Stmt.FormedAll d.body := by
  obtain ⟨name, keyword, parameters, body⟩ := d
  exact h

theorem Stmt.formedAll_iff {ss : List Stmt} : Stmt.FormedAll ss ↔ ∀ s ∈ ss, s.Formed := by
  induction ss with
  | nil => simp [Stmt.FormedAll]
  | cons s ss ih => simp [Stmt.FormedAll, ih]

theorem FunctionDecl.formedAll_iff {ds : List FunctionDecl} :
    FunctionDecl.FormedAll ds ↔ ∀ d ∈ ds, d.Formed := by
  induction ds with
  | nil => simp [FunctionDecl.FormedAll]
  | cons d ds ih => simp [FunctionDecl.FormedAll, ih]

theorem ClassDecl.Formed.superclass {d : ClassDecl} (h : d.Formed) :
    ∀ clause ∈ d.superclass, clause.IsVariable := by
  obtain ⟨name, superclass, methods, classMethods, getters, setters⟩ := d
  exact h.1

/-- The members of a formed class, of each kind, have formed bodies. -/
theorem ClassDecl.Formed.members {d : ClassDecl} (h : d.Formed) :
    (∀ m ∈ d.methods, m.Formed) ∧ (∀ m ∈ d.classMethods, m.Formed) ∧
      (∀ m ∈ d.getters, m.Formed) ∧ ∀ m ∈ d.setters, m.Formed := by
  obtain ⟨name, superclass, methods, classMethods, getters, setters⟩ := d
  obtain ⟨_, _, hm, hc, hg, hs⟩ := h
  exact ⟨FunctionDecl.formedAll_iff.mp hm, FunctionDecl.formedAll_iff.mp hc,
    FunctionDecl.formedAll_iff.mp hg, FunctionDecl.formedAll_iff.mp hs⟩

end Lox
