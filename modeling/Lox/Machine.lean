import Lox.Store
import Lox.Channel
import Lox.Host
import Lox.Fault
import Lox.Resolution

/-!
# The machine

The state in which programs run, and computations on it. A computation gives a result, stops with
a runtime error, or runs out of fuel; the state it leaves behind is kept in each case.
-/

namespace Lox

/-- The state of a running program. -/
structure Machine where
  store : Store
  /-- The frame of global variables. -/
  globals : FrameId
  /-- The frame of the scope that is running. -/
  current : FrameId
  /-- The distances of all references resolved so far. -/
  table : Table
  input : Input
  output : Output
  host : Host

/-- Why a computation gives no result. Running out of fuel says nothing about the program. -/
inductive Halt where
  | fault (e : RuntimeError)
  | outOfFuel
  deriving DecidableEq

/-- A computation on the machine. -/
abbrev Exec := EStateM Halt Machine

/-- How a statement ends. -/
inductive Flow where
  | normal
  /-- The innermost loop is to end. -/
  | breakLoop
  /-- The innermost loop is to begin its next round. -/
  | continueLoop
  /-- The innermost call is to end with this value. -/
  | returned (value : Value)

/-- A cause for a failed assignment. -/
def AssignFault.cause : AssignFault → RuntimeCause
  | .undefined => .undefinedVariable
  | .constant => .constantReassigned

namespace Machine

/-- A machine whose globals are the native functions. -/
def start (input : Input) (output : Output) (host : Host) : Machine :=
  let (globals, store) := Store.empty.newFrame none
  { store := store.defineNatives globals
    globals
    current := globals
    table := ∅
    input
    output
    host }

/-- Adds the distances of newly resolved references to those known. -/
def learn (m : Machine) (table : Table) : Machine :=
  { m with table := table.foldl (fun known site d => known.insert site d) m.table }

/-- The value of a reference: by its distance if it was resolved, else a global. -/
def lookUp (m : Machine) (site : Site) (name : String) : Option Value :=
  match m.table[site]? with
  | some distance => m.store.getAt? m.current distance name
  | none => m.store.get? m.globals name

/-- The frame that an assignment to a reference is for: by its distance if it was resolved, else
that of the globals. -/
def target (m : Machine) (site : Site) (name : String) : Except AssignFault FrameId :=
  match m.table[site]? with
  | some distance => m.store.targetAt m.current distance name
  | none => m.store.target m.globals name

end Machine

namespace Exec

/-- Gives up for want of fuel. -/
def outOfFuel {α : Type} : Exec α :=
  throw .outOfFuel

/-- Stops with a runtime error at `token`. -/
def fail {α : Type} (token : Token) (cause : RuntimeCause) : Exec α :=
  throw (.fault ⟨token, cause⟩)

/-- A result, or a runtime error at `token`. -/
def ofExcept {α : Type} (token : Token) : Except RuntimeCause α → Exec α
  | .ok a => pure a
  | .error cause => fail token cause

/-- Changes the store. -/
def modifyStore (f : Store → Store) : Exec Unit :=
  modify fun m => { m with store := f m.store }

/-- Makes something new in the store. -/
def fromStore {α : Type} (f : Store → α × Store) : Exec α :=
  modifyGet fun m =>
    let (a, store) := f m.store
    (a, { m with store })

/-- Binds a name in the current frame. -/
def define (name : String) (value : Value) (mutable : Bool) : Exec Unit :=
  modify fun m => { m with store := m.store.define m.current name value mutable }

/-- The value of a reference. -/
def lookUp (site : Site) (name : Token) : Exec Value := do
  match (← get).lookUp site name.lexeme with
  | some value => return value
  | none => fail name .undefinedVariable

/-- Assigns to a reference. -/
def assign (site : Site) (name : Token) (value : Value) : Exec Unit := fun m =>
  match m.target site name.lexeme with
  | .ok frame => .ok () { m with store := m.store.define frame name.lexeme value true }
  | .error fault => .error (.fault ⟨name, fault.cause⟩) m

/-- Runs a computation with `frame` as the current one. However it ends, the former one is current
again afterwards. -/
def within {α : Type} (frame : FrameId) (x : Exec α) : Exec α := fun m =>
  let former := m.current
  match x { m with current := frame } with
  | .ok a m => .ok a { m with current := former }
  | .error e m => .error e { m with current := former }

/-- Makes a frame inside the current one. -/
def innerFrame : Exec FrameId := fun m =>
  let (frame, store) := m.store.newFrame (some m.current)
  .ok frame { m with store }

/-- Reads a line of input. -/
def takeLine : Exec Line := fun m =>
  let (line, input) := m.input.takeLine
  .ok line { m with input }

/-- Writes a value's text and a line end, and says whether all of it fit. -/
def writeLine (value : Value) : Exec Bool := fun m =>
  let (fits, output) := m.output.writeLine value.text
  .ok fits { m with output }

end Exec

end Lox
