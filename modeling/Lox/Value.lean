import Std.Data.TreeMap
import Lox.Tree
import Lox.Native
import Lox.Decimal.Layout
import Lox.Text.Quoted

/-!
# Values

What expressions evaluate to. Functions and classes never change once made, so a value holds all
of one; its serial number tells it from others that look the same. An object's fields change: they
live in the store under the object's number.
-/

namespace Lox

/-- The number of a frame in the store. -/
abbrev FrameId := Nat

/-- The number of an object in the store. -/
abbrev ObjectId := Nat

/-- How a member of a class is reached. -/
inductive MemberKind where
  /-- Read as a function. -/
  | method
  /-- Called as soon as it is read. -/
  | getter
  /-- Called by an assignment; its parameter is constant. -/
  | setter
  deriving DecidableEq, Repr

/-- A function with the frame it was made in. -/
structure Function where
  serial : Nat
  declaration : FunctionDecl
  closure : FrameId
  isInitializer : Bool
  kind : MemberKind

/-- Members of a class by name. -/
abbrev Methods := Std.TreeMap String Function

/-- A class. -/
structure Class where
  serial : Nat
  name : String
  superclass : Option Class
  methods : Methods
  classMethods : Methods

/-- An instance of a class. -/
structure Object where
  id : ObjectId
  cls : Class

/-- A value. -/
inductive Value where
  | nil
  | bool (b : Bool)
  | number (x : Float)
  | string (s : String)
  | native (n : Native) (serial : Nat)
  | function (f : Function)
  | cls (c : Class)
  | object (o : Object)

instance : Inhabited Value := ⟨.nil⟩

/-! ## Functions and classes -/

/-- The name of a function; a literal has none. -/
def Function.name? (f : Function) : Option String :=
  f.declaration.name.map Token.lexeme

/-- The number of arguments a function takes. -/
def Function.arity (f : Function) : Nat :=
  f.declaration.parameters.length

/-- The text of a function. -/
def Function.text (f : Function) : String :=
  match f.name? with
  | some name => "<fn " ++ name ++ ">"
  | none => "<anon fn>"

namespace Class

/-- The member of this name: the class's own, else the nearest one up the chain of
superclasses. -/
def findMethod (name : String) : Class → Option Function
  | ⟨_, _, superclass, methods, _⟩ =>
    match methods[name]? with
    | some f => some f
    | none =>
      match superclass with
      | some c => findMethod name c
      | none => none

/-- The class method of this name: the class's own, else the nearest one up the chain. -/
def findClassMethod (name : String) : Class → Option Function
  | ⟨_, _, superclass, _, classMethods⟩ =>
    match classMethods[name]? with
    | some f => some f
    | none =>
      match superclass with
      | some c => findClassMethod name c
      | none => none

/-- The method that makes a new instance ready. -/
def initializer? (c : Class) : Option Function :=
  c.findMethod initializerName

/-- The number of arguments that constructing an instance takes. -/
def arity (c : Class) : Nat :=
  match c.initializer? with
  | some f => f.arity
  | none => 0

/-- The class of the class: it holds the class methods, and exists only where some are declared.
-/
def metaclass? (c : Class) : Option Class :=
  if c.classMethods.isEmpty then none
  else some ⟨c.serial, c.name ++ " metaclass", none, c.classMethods, ∅⟩

/-- The text of a class. -/
def text (c : Class) : String :=
  "<cls " ++ c.name ++ ">"

end Class

/-! ## What every value has -/

namespace Value

/-- The kind of a value, as error messages say it. -/
def typeName : Value → String
  | .nil => "nil"
  | .bool _ => "boolean"
  | .number _ => "number"
  | .string _ => "string"
  | .native _ _ => "function"
  | .function _ => "function"
  | .cls _ => "class"
  | .object _ => "instance"

/-- Does the value count as true? All do but `nil` and `false`. -/
def isTruthy : Value → Bool
  | .nil => false
  | .bool b => b
  | _ => true

/-- Are two values equal? Numbers are compared as numbers, so a NaN differs from itself; functions,
classes and instances are equal only to themselves. -/
def equals : Value → Value → Bool
  | .nil, .nil => true
  | .bool a, .bool b => a == b
  | .number a, .number b => a == b
  | .string a, .string b => a == b
  | .native _ a, .native _ b => a == b
  | .function f, .function g => f.serial == g.serial
  | .cls c, .cls d => c.serial == d.serial
  | .object o, .object p => o.id == p.id
  | _, _ => false

/-- The number of arguments the value takes when called; `none` if it cannot be called. -/
def arity? : Value → Option Nat
  | .native n _ => some n.arity
  | .function f => some f.arity
  | .cls c => some c.arity
  | _ => none

/-- The value of a constant in the program. -/
def ofLiteral : Literal → Value
  | .number x => .number x
  | .string s => .string s
  | .true => .bool true
  | .false => .bool false
  | .nil => .nil

/-- From this number on whole numbers are written like the others, to their significant digits. -/
def wholeLimit : Nat := Nat.pow 10 15

/-- The text of a number. -/
def numberText (x : Float) : String :=
  let parts := Decimal.Parts.ofFloat x
  match parts with
  | .infinite negative => if negative then "-Infinity" else "Infinity"
  | _ =>
    match parts.whole? with
    | some n =>
      if n < wholeLimit then (if parts.isNegative then "-" else "") ++ toString n
      else Decimal.plain x
    | none => Decimal.plain x

/-- The text of a value, as it is printed. -/
def text : Value → String
  | .nil => "nil"
  | .bool b => if b then "true" else "false"
  | .number x => numberText x
  | .string s => s
  | .native n _ => "<native fn " ++ n.name ++ ">"
  | .function f => f.text
  | .cls c => c.text
  | .object o => "<inst " ++ o.cls.name ++ ">"

/-- The text of a value for diagnosis: strings are quoted. -/
def debugText : Value → String
  | .string s => Text.quoted s
  | v => v.text

end Value

end Lox
