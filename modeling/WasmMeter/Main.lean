import WasmMeter.CommandLine.Command

/-!
# The program

Carries out the interaction of the arguments in the world.
-/

set_option autoImplicit false

namespace WasmMeter

/-- What went wrong with a file. -/
def FileError.ofSystem : IO.Error → FileError
  | .noFileOrDirectory _ code description | .inappropriateType _ code description
  | .permissionDenied _ code description | .invalidArgument _ code description
  | .resourceExhausted _ code description | .alreadyExists _ code description
  | .unsatisfiedConstraints code description | .illegalOperation code description
  | .resourceBusy code description | .hardwareFault code description
  | .otherError code description => .ofCode code.toNat description
  | e => .other (toString e)

/-- The content of a file. -/
def readContent (path : String) : IO Bytes := do
  let handle ← IO.FS.Handle.mk path .read
  return (← handle.readBinToEnd).toList

/-- Carries out a course of events, and answers the number with which the program ends. -/
def Interaction.perform : Interaction → IO UInt32
  | .readFile path next => do
    match ← (readContent path).toBaseIO with
    | .ok content => (next (.ok content)).perform
    | .error e => (next (.error (.ofSystem e))).perform
  | .writeFile path content next => do
    match ← (IO.FS.writeBinFile path ⟨content.toArray⟩).toBaseIO with
    | .ok () => (next (.ok ())).perform
    | .error e => (next (.error (.ofSystem e))).perform
  | .print content => do
    (← IO.getStdout).write ⟨content.toArray⟩
    pure 0
  | .done => pure 0
  | .failed report => do
    IO.eprintln report.message
    pure (UInt32.ofNat CommandLine.failureCode)

end WasmMeter

open WasmMeter

/-- Runs the program. -/
def main (arguments : List String) : IO UInt32 :=
  match CommandLine.action arguments with
  | .misuse _ => do
    IO.eprintln CommandLine.usage
    pure (UInt32.ofNat CommandLine.misuseCode)
  | .help => do
    IO.println CommandLine.usage
    pure 0
  | .perform interaction => interaction.perform
