import Lox.Proofs.Run.Layer

/-!
# What layers start

Evaluating an expression starts tasks that evaluate its parts, look up properties and invoke
functions. None of these runs a statement, and only a call expression starts the call of a value.
What holds of these tasks holds of all that an expression starts (`Layer.expression_starts`).
-/

namespace Lox.Eval

/-! ## Tasks that are started -/

/-- All tasks that the layer starts have the property. -/
def Layer.Starts (P : Task → Prop) {α : Type} : Layer α → Prop
  | .done _ => True
  | .step _ _ next => ∀ b, (next b).Starts P
  | .start t next | .enter _ _ t next => P t ∧ ∀ a, (next a).Starts P

/-- The task is the call of a value. -/
def Task.IsCall : Task → Prop
  | .call _ _ _ => True
  | _ => False

/-- The task evaluates something, and is not the call of a value. -/
def Task.Evaluates : Task → Prop
  | .statement _ | .statements _ | .rounds _ _ _ | .call _ _ _ => False
  | _ => True

theorem Task.Evaluates.not_isCall {t : Task} (h : t.Evaluates) : ¬t.IsCall := by
  cases t with
  | call callee paren arguments => exact h.elim
  | _ => exact id

namespace Layer

variable {P : Task → Prop} {α : Type}

/-- A layer may go one of two ways. -/
theorem starts_ite {b : Bool} {l l' : Layer α} (h : l.Starts P) (h' : l'.Starts P) :
    (if b = true then l else l').Starts P := by
  cases b with
  | true => exact h
  | false => exact h'

/-- A task that ends the layer. -/
theorem starts_last {t : Task} (h : P t) : (Layer.start t .done).Starts P :=
  ⟨h, fun _ => trivial⟩

/-- A property of a class is taken without starting anything. -/
theorem classProperty_starts (c : Class) (name : Token) :
    (Layer.classProperty c name).Starts P := by
  refine starts_ite trivial ?_
  split
  next => exact fun _ => trivial
  next => exact fun _ => trivial

/-! ## Expressions -/

variable (hP : ∀ t : Task, t.Evaluates → P t)

include hP

/-- Setting a property starts a setter at most. -/
theorem setProperty_starts (o : Object) (name : Token) (value : Value) :
    (Layer.setProperty o name value).Starts P := by
  unfold Layer.setProperty
  split
  next => exact fun _ => ⟨hP _ trivial, fun _ => trivial⟩
  next => exact fun _ => trivial

/-- A property of an object starts a getter at most. -/
theorem objectProperty_starts (o : Object) (name : Token) :
    (Layer.objectProperty o name).Starts P := by
  intro field
  cases field with
  | some value => trivial
  | none =>
    dsimp only
    split
    next => exact fun _ => starts_last (hP _ trivial)
    next =>
      split
      next => exact fun _ => trivial
      next => exact fun _ => trivial

/-- A call starts the body of what is called. -/
theorem call_starts (callee : Value) (paren : Token) (arguments : List Value) :
    (Layer.call callee paren arguments).Starts P := by
  cases callee with
  | native n serial => exact fun _ => trivial
  | function f => exact starts_last (hP _ trivial)
  | cls c =>
    intro o
    split
    next => trivial
    next => exact fun _ => ⟨hP _ trivial, fun _ => trivial⟩
  | _ => exact fun _ => trivial

/-- Only a call expression starts the call of a value. -/
theorem expression_starts (e : Expr)
    (hcall : (∀ callee paren es, e ≠ .call callee paren es) ∨
      ∀ callee paren arguments, P (.call callee paren arguments)) :
    (Layer.expression e).Starts P := by
  have hevaluates (e : Expr) : P (.expression e) := hP _ trivial
  cases e with
  | literal value => trivial
  | «variable» site name => exact fun _ => trivial
  | assign site name value => exact ⟨hevaluates value, fun _ _ => trivial⟩
  | receiver site keyword => exact fun _ => trivial
  | inherited site keyword method => exact fun _ _ => starts_last (hP _ trivial)
  | group inner => exact starts_last (hevaluates inner)
  | unary operator operand => exact ⟨hevaluates operand, fun _ _ => trivial⟩
  | binary left operator right =>
    exact ⟨hevaluates left, fun _ => ⟨hevaluates right, fun _ _ => trivial⟩⟩
  | logical left operator right =>
    exact ⟨hevaluates left, fun _ => starts_ite trivial (starts_last (hevaluates right))⟩
  | conditional condition whenTrue whenFalse =>
    exact ⟨hevaluates condition, fun _ =>
      starts_ite (starts_last (hevaluates whenTrue)) (starts_last (hevaluates whenFalse))⟩
  | call callee paren arguments =>
    have hvalue : ∀ callee values, P (.call callee paren values) := fun callee values =>
      hcall.elim (fun hno => absurd rfl (hno _ _ _)) fun h => h callee paren values
    refine ⟨hevaluates callee, fun f => ⟨hP _ trivial, fun values => ?_⟩⟩
    dsimp only
    split
    next => exact fun _ => trivial
    next =>
      split
      next => exact fun _ => trivial
      next => exact starts_last (hvalue f values)
  | get object name =>
    refine ⟨hevaluates object, fun object => ?_⟩
    cases object with
    | object o => exact starts_last (hP _ trivial)
    | cls c => exact classProperty_starts c name
    | _ => exact fun _ => trivial
  | set object name value =>
    refine ⟨hevaluates object, fun object => ?_⟩
    cases object with
    | object o => exact ⟨hevaluates value, fun value => setProperty_starts hP o name value⟩
    | _ => exact fun _ => trivial
  | function d => exact fun _ => trivial

end Layer

end Lox.Eval
