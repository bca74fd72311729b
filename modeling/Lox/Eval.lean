import Lox.Machine
import Lox.Native.Apply
import Lox.Value.Operator
import Lox.Value.Typed

/-!
# Evaluation

Statements and expressions as computations on the machine. Each step into a part of the program,
each round of a loop and each call costs one unit of fuel, so every run ends; with more fuel a
computation that did end ends in the same way.
-/

namespace Lox.Eval

open Exec

/-! ## Steps that run no further part of the program -/

/-- The constant that a line typed in stands for; `nil` if no line was left. -/
def typedValue (keyword : Token) : Line → Exec Value
  | .absent => return .nil
  | .text s => return .ofTyped (withoutLineEnd s)
  | .unreadable => fail keyword .inputUnreadable

/-- An `input` statement: the line is read before the target is looked at. -/
def input (keyword : Token) (target : Expr) : Exec Unit := do
  let value ← typedValue keyword (← takeLine)
  match target with
  | .variable site name => assign site name value
  | _ => fail keyword .inputTargetInvalid

/-- Prints a value. -/
def print (keyword : Token) (value : Value) : Exec Unit := do
  if ← writeLine value then return () else fail keyword .outputRefused

/-- Makes members of a class and adds them to a table, later ones in place of earlier ones of the
same name. -/
def addMembers (closure : FrameId) (kind : MemberKind) (isInitializer : FunctionDecl → Bool)
    (members : List FunctionDecl) (table : Methods) : Exec Methods :=
  members.foldlM (fun table d => do
    let f ← fromStore fun s => s.newFunction d closure (isInitializer d) kind
    return table.insert d.memberName f) table

/-- The frame in which the members of a class are made: for a class with a superclass, one inside
the current frame that holds `super`. -/
def memberFrame (superclass : Option Class) : Exec FrameId := do
  match superclass with
  | none => return (← get).current
  | some c =>
    let frame ← innerFrame
    modifyStore fun s => s.define frame "super" (.cls c) false
    return frame

/-- Makes a class and binds its name in the current frame. -/
def declareClass (d : ClassDecl) (superclass : Option Class) : Exec Unit := do
  define d.name.lexeme .nil false
  let closure ← memberFrame superclass
  let methods ← addMembers closure .method (fun d => d.memberName = initializerName) d.methods ∅
  let methods ← addMembers closure .getter (fun _ => false) d.getters methods
  let methods ← addMembers closure .setter (fun _ => false) d.setters methods
  let classMethods ← addMembers closure .method (fun _ => false) d.classMethods ∅
  let c ← fromStore fun s => s.newClass d.name.lexeme superclass methods classMethods
  define d.name.lexeme (.cls c) false

/-- The class that a superclass clause names. -/
def superclassOf (d : ClassDecl) (clause : Expr) (value : Value) : Exec Class :=
  match value with
  | .cls c => return c
  | _ =>
    match clause with
    | .variable _ name => fail name .superclassNotClass
    | _ => fail d.name .superclassNotClass

/-- A function as a method of `receiver`. -/
def bind (f : Function) (receiver : Value) : Exec Function :=
  fromStore fun s => s.bind f receiver

/-- The member that `super` and a name stand for, as a method of the current receiver. The frame
with the receiver lies one step inside the frame with the superclass. -/
def inheritedMember (site : Site) (keyword method : Token) : Exec Function := do
  let m ← get
  match m.table[site]? with
  | none => fail keyword .superNotHere
  | some distance =>
    match m.store.getAt? m.current distance "super" with
    | some (.cls c) =>
      let receiver := (m.store.getAt? m.current (distance - 1) "this").getD .nil
      match (c.findMethod method.lexeme).or (c.findClassMethod method.lexeme) with
      | some f => bind f receiver
      | none => fail method .undefinedProperty
    | _ => fail keyword .superclassNotClass

/-- A class method as a property of a class. A class that has class methods of its own also has
itself as a property, under its own name. -/
def classProperty (c : Class) (name : Token) : Exec Value := do
  if c.metaclass?.isSome && c.name = name.lexeme then
    return .cls c
  else
    match c.findClassMethod name.lexeme with
    | some f => return .function (← bind f (.cls c))
    | none => fail name .undefinedProperty

/-- Binds parameters to arguments in a frame. -/
def bindParameters (frame : FrameId) (f : Function) (arguments : List Value) : Exec Unit :=
  modifyStore fun s =>
    (f.declaration.parameters.zip arguments).foldl
      (fun s (name, value) => s.define frame name.lexeme value (f.kind != .setter)) s

/-- What a call gives when its body ended with `flow`: an initializer always gives the instance. -/
def callResult (f : Function) (flow : Flow) : Exec Value := do
  if f.isInitializer then
    return ((← get).store.getAt? f.closure 0 "this").getD .nil
  else
    match flow with
    | .returned value => return value
    | _ => return .nil

/-- A native function called. -/
def callNative (n : Native) (paren : Token) (arguments : List Value) : Exec Value := fun m =>
  let (result, host) := n.apply arguments m.host
  match result with
  | .ok value => .ok value { m with host }
  | .error fault => .error (.fault ⟨paren, .native fault⟩) { m with host }

/-! ## Evaluation proper -/

mutual

/-- Runs a statement. -/
def execute : Nat → Stmt → Exec Flow
  | 0, _ => outOfFuel
  | fuel + 1, s =>
    match s with
    | .block body => do
      let frame ← innerFrame
      within frame (executeAll fuel body)
    | .breakLoop _ => return .breakLoop
    | .continueLoop _ => return .continueLoop
    | .classDecl d => do
      let superclass ← superclassClause fuel d
      declareClass d superclass
      return .normal
    | .empty => return .normal
    | .expression value => do
      let _ ← evaluate fuel value
      return .normal
    | .functionDecl d => do
      let m ← get
      let f ← fromStore fun s => s.newFunction d m.current false .method
      define (f.name?.getD "") (.function f) false
      return .normal
    | .conditional condition whenTrue whenFalse => do
      if (← evaluate fuel condition).isTruthy then
        execute fuel whenTrue
      else
        match whenFalse with
        | some s => execute fuel s
        | none => return .normal
    | .input keyword target => do
      input keyword target
      return .normal
    | .print keyword value => do
      print keyword (← evaluate fuel value)
      return .normal
    | .returnValue _ value => return .returned (← evaluateOption fuel value)
    | .constant name value => do
      define name.lexeme (← evaluate fuel value) false
      return .normal
    | .var name value => do
      define name.lexeme (← evaluateOption fuel value) true
      return .normal
    | .loop condition body increment => repeatLoop fuel condition body increment

/-- Runs statements in order until one does not end normally. -/
def executeAll : Nat → List Stmt → Exec Flow
  | 0, _ => outOfFuel
  | _ + 1, [] => return .normal
  | fuel + 1, s :: ss => do
    match ← execute fuel s with
    | .normal => executeAll fuel ss
    | flow => return flow

/-- Runs the rounds of a loop. -/
def repeatLoop : Nat → Expr → Stmt → Option Expr → Exec Flow
  | 0, _, _, _ => outOfFuel
  | fuel + 1, condition, body, increment => do
    if (← evaluate fuel condition).isTruthy then
      match ← execute fuel body with
      | .breakLoop => return .normal
      | .returned value => return .returned value
      | _ =>
        let _ ← evaluateOption fuel increment
        repeatLoop fuel condition body increment
    else
      return .normal

/-- The superclass of a class about to be made. -/
def superclassClause : Nat → ClassDecl → Exec (Option Class)
  | 0, _ => outOfFuel
  | fuel + 1, d =>
    match d.superclass with
    | none => return none
    | some clause => do
      let value ← evaluate fuel clause
      return some (← superclassOf d clause value)

/-- Evaluates an expression. -/
def evaluate : Nat → Expr → Exec Value
  | 0, _ => outOfFuel
  | fuel + 1, e =>
    match e with
    | .literal value => return .ofLiteral value
    | .variable site name => lookUp site name
    | .assign site name value => do
      let value ← evaluate fuel value
      assign site name value
      return value
    | .receiver site keyword => lookUp site keyword
    | .inherited site keyword method => do
      let f ← inheritedMember site keyword method
      asProperty fuel f
    | .group inner => evaluate fuel inner
    | .unary operator operand => do
      let value ← evaluate fuel operand
      ofExcept operator (Value.unary operator.kind value)
    | .binary left operator right => do
      let a ← evaluate fuel left
      let b ← evaluate fuel right
      ofExcept operator (Value.binary operator.kind a b)
    | .logical left operator right => do
      let a ← evaluate fuel left
      if Value.decides operator.kind a then return a else evaluate fuel right
    | .conditional condition whenTrue whenFalse => do
      if (← evaluate fuel condition).isTruthy then evaluate fuel whenTrue
      else evaluate fuel whenFalse
    | .call callee paren arguments => do
      let callee ← evaluate fuel callee
      let values ← evaluateAll fuel arguments
      match callee.arity? with
      | none => fail paren .notCallable
      | some arity =>
        if values.length ≠ arity then fail paren (.wrongArity arity values.length)
        else call fuel callee paren values
    | .get object name => do
      match ← evaluate fuel object with
      | .object o => objectProperty fuel o name
      | .cls c => classProperty c name
      | _ => fail name .noProperties
    | .set object name value => do
      match ← evaluate fuel object with
      | .object o =>
        let value ← evaluate fuel value
        match o.cls.findMethod (setterName name.lexeme) with
        | some f =>
          let f ← bind f (.object o)
          let _ ← invoke fuel f [value]
          return value
        | none =>
          modifyStore fun s => s.setField o name.lexeme value
          return value
      | _ => fail name .noFields
    | .function d => do
      let m ← get
      return .function (← fromStore fun s => s.newFunction d m.current false .method)

/-- Evaluates an expression that may be absent, which counts as `nil`. -/
def evaluateOption : Nat → Option Expr → Exec Value
  | 0, _ => outOfFuel
  | _ + 1, none => return .nil
  | fuel + 1, some e => evaluate fuel e

/-- Evaluates expressions in order. -/
def evaluateAll : Nat → List Expr → Exec (List Value)
  | 0, _ => outOfFuel
  | _ + 1, [] => return []
  | fuel + 1, e :: es => do
    let value ← evaluate fuel e
    return value :: (← evaluateAll fuel es)

/-- A bound member read as a property: a getter is called at once. -/
def asProperty : Nat → Function → Exec Value
  | 0, _ => outOfFuel
  | fuel + 1, f =>
    match f.kind with
    | .getter => invoke fuel f []
    | _ => return .function f

/-- A property of an instance: a field, else a member of its class, else a class method. -/
def objectProperty : Nat → Object → Token → Exec Value
  | 0, _, _ => outOfFuel
  | fuel + 1, o, name => do
    match (← get).store.field? o name.lexeme with
    | some value => return value
    | none =>
      match o.cls.findMethod name.lexeme with
      | some f =>
        let f ← bind f (.object o)
        asProperty fuel f
      | none =>
        match o.cls.findClassMethod name.lexeme with
        | some f => return .function (← bind f (.cls o.cls))
        | none => fail name .undefinedProperty

/-- Calls a value with as many arguments as it takes. Calling a class makes an instance. -/
def call : Nat → Value → Token → List Value → Exec Value
  | 0, _, _, _ => outOfFuel
  | fuel + 1, callee, paren, arguments =>
    match callee with
    | .native n _ => callNative n paren arguments
    | .function f => invoke fuel f arguments
    | .cls c => do
      let o ← fromStore fun s => s.newObject c
      match c.initializer? with
      | none => return .object o
      | some f =>
        let f ← bind f (.object o)
        let _ ← invoke fuel f arguments
        return .object o
    | _ => fail paren .notCallable

/-- Runs the body of a function in a frame of its own that binds the parameters. -/
def invoke : Nat → Function → List Value → Exec Value
  | 0, _, _ => outOfFuel
  | fuel + 1, f, arguments => do
    let frame ← fromStore fun s => s.newFrame (some f.closure)
    bindParameters frame f arguments
    let flow ← within frame (executeAll fuel f.declaration.body)
    callResult f flow

end

/-- Runs the statements of a program; how one ends does not matter to the next, unless it fails. -/
def interpret (fuel : Nat) : List Stmt → Exec Unit
  | [] => return ()
  | s :: ss => do
    let _ ← execute fuel s
    interpret fuel ss

/-- Evaluates an expression and writes its value, as far as it fits. -/
def interpretExpression (fuel : Nat) (e : Expr) : Exec Value := do
  let value ← evaluate fuel e
  let _ ← writeLine value
  return value

end Lox.Eval
