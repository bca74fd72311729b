import Std.Time.DateTime.Timestamp
import Lox.Command

/-!
# The program

Reads what a command needs, performs it and writes what it leaves behind. Standard input is read
to its end beforehand, and only for a command that can come to read it.
-/

namespace Lox.Main

/-- The fuel that commands get, more than a computer could use up. -/
def fuel : Nat := Nat.pow 2 62

/-- What is said to arguments that make no sense. -/
def usage : String :=
  "Usage: lox [--log] [tokenize FILE [--json] | parse FILE | evaluate FILE | run FILE | repl]"

/-- The content of a file; `none` if it does not exist. -/
def contentOf (name : String) : IO (Option (List UInt8)) := do
  try
    return some (← IO.FS.readBinFile name).toList
  catch
    | .noFileOrDirectory _ _ _ => return none
    | e => throw e

/-- A world whose clock starts at the present time. -/
def presentHost : IO Host := do
  let now ← Std.Time.Timestamp.now
  let seed ← IO.rand 0 (Host.bound - 1)
  return .steady (now.toMillisecondsSinceUnixEpoch.toInt.toNat.toFloat / 1000) seed

/-- Performs a command and gives its exit status. -/
def perform (i : Invocation) : IO UInt32 := do
  if i.log then IO.FS.writeFile "app.log" ""
  let content ← match i.command.file? with
    | some name => contentOf name
    | none => pure none
  let stdin ← if i.command.readsInput content then (← IO.getStdin).readBinToEnd else pure .empty
  match i.command.perform fuel (← presentHost) content stdin.toList with
  | some t =>
    (← IO.getStdout).write ⟨t.stdout⟩
    (← IO.getStderr).putStr t.stderr
    return t.status.toUInt32
  | none => throw (.userError "out of fuel")

end Lox.Main

/-- The program: arguments in, exit status out. -/
def main (arguments : List String) : IO UInt32 :=
  match Lox.Invocation.ofArguments? arguments with
  | some i => Lox.Main.perform i
  | none => do
    IO.eprintln Lox.Main.usage
    return 2
