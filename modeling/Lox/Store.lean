import Lox.Value

/-!
# The store

The frames that hold variables and the fields of objects. A frame has a parent, in which names are
looked up that it does not bind itself; parents are made before their children, so every chain of
parents ends. `Store.search` walks a chain to the first frame that binds a name, `Store.ancestor?`
walks a given number of steps.
-/

namespace Lox

/-- A variable's value, and whether it may be assigned to. -/
structure Binding where
  value : Value
  mutable : Bool

/-- A frame: the variables of one run of one scope. -/
structure Frame where
  parent : Option FrameId
  bindings : Std.TreeMap String Binding

/-- The fields of an object. -/
abbrev Fields := Std.TreeMap String Value

/-- Frames and fields by their numbers, and the next serial number. -/
structure Store where
  frames : Array Frame
  objects : Array Fields
  nextSerial : Nat

/-- Why a variable cannot be assigned to. -/
inductive AssignFault where
  | undefined
  | constant
  deriving DecidableEq, Repr

/-- The text of a frame for diagnosis: the names it binds, in order. -/
def Frame.debugText (f : Frame) : String :=
  "Environment \x7b names: [" ++ ", ".intercalate (f.bindings.keys.map Text.quoted)
    ++ "], has_enclosing: " ++ (if f.parent.isSome then "true" else "false") ++ " \x7d"

namespace Store

/-- The store with nothing in it. -/
def empty : Store :=
  ⟨#[], #[], 0⟩

/-! ## Frames -/

/-- Makes a frame that binds nothing. -/
def newFrame (s : Store) (parent : Option FrameId) : FrameId × Store :=
  (s.frames.size, { s with frames := s.frames.push ⟨parent, ∅⟩ })

/-- Binds a name in a frame, in place of any earlier binding. -/
def define (s : Store) (frame : FrameId) (name : String) (value : Value) (mutable : Bool) :
    Store :=
  { s with
    frames := s.frames.modify frame fun f =>
      { f with bindings := f.bindings.insert name ⟨value, mutable⟩ } }

/-- Reserves a name in a frame before its value exists. -/
def declare (s : Store) (frame : FrameId) (name : String) (mutable : Bool) : Store :=
  s.define frame name .nil mutable

/-- The parent of a frame. -/
def parent? (s : Store) (frame : FrameId) : Option FrameId :=
  s.frames[frame]?.bind Frame.parent

/-- What exactly this frame binds the name to. -/
def binding? (s : Store) (frame : FrameId) (name : String) : Option Binding :=
  s.frames[frame]?.bind fun f => f.bindings[name]?

/-- The frame that lies `distance` parents above a frame. -/
def ancestor? (s : Store) (frame : FrameId) : Nat → Option FrameId
  | 0 => if frame < s.frames.size then some frame else none
  | distance + 1 => (s.parent? frame).bind fun parent => s.ancestor? parent distance

/-- The first frame of a chain that binds the name, among the first `steps` frames. -/
def searchWithin (s : Store) (name : String) : Nat → FrameId → Option FrameId
  | 0, _ => none
  | steps + 1, frame =>
    if (s.binding? frame name).isSome then some frame
    else (s.parent? frame).bind fun parent => s.searchWithin name steps parent

/-- The first frame of a chain that binds the name. No chain is longer than the store is large. -/
def search (s : Store) (frame : FrameId) (name : String) : Option FrameId :=
  s.searchWithin name s.frames.size frame

/-- The value of a variable, looked up along the chain. -/
def get? (s : Store) (frame : FrameId) (name : String) : Option Value :=
  (s.search frame name).bind fun f => (s.binding? f name).map Binding.value

/-- The value that the frame at this distance binds the name to. -/
def getAt? (s : Store) (frame : FrameId) (distance : Nat) (name : String) : Option Value :=
  (s.ancestor? frame distance).bind fun f => (s.binding? f name).map Binding.value

/-- This frame, if it binds the name and lets it be assigned to. -/
def targetIn (s : Store) (name : String) (frame : FrameId) : Except AssignFault FrameId :=
  match s.binding? frame name with
  | some b => if b.mutable then .ok frame else .error .constant
  | none => .error .undefined

/-- The frame that an assignment to a name, looked up along the chain, is for. -/
def target (s : Store) (frame : FrameId) (name : String) : Except AssignFault FrameId :=
  match s.search frame name with
  | some f => s.targetIn name f
  | none => .error .undefined

/-- The frame that an assignment to a name at this distance is for. -/
def targetAt (s : Store) (frame : FrameId) (distance : Nat) (name : String) :
    Except AssignFault FrameId :=
  match s.ancestor? frame distance with
  | some f => s.targetIn name f
  | none => .error .undefined

/-- Gives a variable, looked up along the chain, another value. -/
def assign (s : Store) (frame : FrameId) (name : String) (value : Value) :
    Except AssignFault Store :=
  (s.target frame name).map fun f => s.define f name value true

/-- Gives the variable of the frame at this distance another value. -/
def assignAt (s : Store) (frame : FrameId) (distance : Nat) (name : String) (value : Value) :
    Except AssignFault Store :=
  (s.targetAt frame distance name).map fun f => s.define f name value true

/-! ## Functions, classes and objects -/

/-- Draws a serial number. -/
def newSerial (s : Store) : Nat × Store :=
  (s.nextSerial, { s with nextSerial := s.nextSerial + 1 })

/-- Makes a function. -/
def newFunction (s : Store) (declaration : FunctionDecl) (closure : FrameId)
    (isInitializer : Bool) (kind : MemberKind) : Function × Store :=
  let (serial, s) := s.newSerial
  (⟨serial, declaration, closure, isInitializer, kind⟩, s)

/-- Makes a class. -/
def newClass (s : Store) (name : String) (superclass : Option Class)
    (methods classMethods : Methods) : Class × Store :=
  let (serial, s) := s.newSerial
  (⟨serial, name, superclass, methods, classMethods⟩, s)

/-- Makes an instance without fields. -/
def newObject (s : Store) (cls : Class) : Object × Store :=
  (⟨s.objects.size, cls⟩, { s with objects := s.objects.push ∅ })

/-- The value of an object's field. -/
def field? (s : Store) (o : Object) (name : String) : Option Value :=
  s.objects[o.id]?.bind fun fields => fields[name]?

/-- Gives an object's field a value. -/
def setField (s : Store) (o : Object) (name : String) (value : Value) : Store :=
  { s with objects := s.objects.modify o.id fun fields => fields.insert name value }

/-- A copy of a function whose closure binds `this`: the function as a method of `receiver`. -/
def bind (s : Store) (f : Function) (receiver : Value) : Function × Store :=
  let (frame, s) := s.newFrame (some f.closure)
  let s := s.define frame "this" receiver false
  s.newFunction f.declaration frame f.isInitializer f.kind

/-- Makes the native functions and binds them, as constants, in a frame. -/
def defineNatives (s : Store) (frame : FrameId) : Store :=
  Native.all.foldl (fun s n =>
    let (serial, s) := s.newSerial
    s.define frame n.name (.native n serial) false) s

end Store

end Lox
