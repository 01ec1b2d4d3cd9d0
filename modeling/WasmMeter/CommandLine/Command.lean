import WasmMeter.CommandLine.Arguments
import WasmMeter.CommandLine.World
import WasmMeter.Json.Module
import WasmMeter.Json.Parser
import WasmMeter.Json.Printer
import WasmMeter.Pipeline

/-!
# Commands

A command reads files, computes, and writes a file or prints. `Interaction` is such a course of
events with everything decided but what the files hold, so that it can be carried out in a `World`,
which is a value (`Interaction.inWorld`), as well as by the system. A command that fails gives a
report: what could not be done, and the causes from the nearest to the first one.

The cost table is read before the module.
-/

set_option autoImplicit false

namespace WasmMeter

/-! ### Reports -/

/-- What could not be done, and why. -/
structure Report where
  context : String
  causes : List String
  deriving DecidableEq, Repr

namespace Report

/-- A text whose lines but the first are indented. -/
def indentLines (indent : Nat) (text : String) : String :=
  String.ofList (text.toList.flatMap fun c ↦
    if c = '\n' then '\n' :: List.replicate indent ' ' else [c])

/-- The line of a cause with its number, which takes five columns. -/
def numbered (cause : String × Nat) : String :=
  let number := toString cause.2
  let padding := String.ofList (List.replicate (5 - number.length) ' ')
  "\n" ++ padding ++ number ++ ": " ++ indentLines 7 cause.1

/-- The report in words. Several causes are numbered. -/
def message (report : Report) : String :=
  "Error: " ++ report.context ++
    match report.causes with
    | [] => ""
    | [cause] => "\n\nCaused by:\n    " ++ indentLines 4 cause
    | causes => "\n\nCaused by:" ++ String.join (causes.zipIdx.map numbered)

end Report

/-! ### Interactions -/

/-- A course of events. -/
inductive Interaction
  | readFile (path : String) (next : Except FileError Bytes → Interaction)
  | writeFile (path : String) (content : Bytes) (next : Except FileError Unit → Interaction)
  | print (content : Bytes)
  | done
  | failed (report : Report)

/-- What a course of events ends in: the report of what could not be done, if anything, and the
world. -/
structure Outcome where
  report : Option Report
  world : World
  deriving DecidableEq, Repr

namespace Interaction

/-- Carries out a course of events in a world. -/
def inWorld : Interaction → World → Outcome
  | .readFile path next, world => (next (world.read path)).inWorld world
  | .writeFile path content next, world =>
    match world.write path content with
    | .ok written => (next (.ok ())).inWorld written
    | .error e => (next (.error e)).inWorld world
  | .print content, world => ⟨none, world.print content⟩
  | .done, world => ⟨none, world⟩
  | .failed report, world => ⟨some report, world⟩

/-- Reads a file and goes on with its content. -/
def reading (path : String) (next : Bytes → Interaction) : Interaction :=
  .readFile path fun
    | .ok content => next content
    | .error e => .failed ⟨"failed to read " ++ path, [e.message]⟩

/-- Writes to a file, or prints where none is given. -/
def emitting (path : Option String) (content : Bytes) : Interaction :=
  match path with
  | some path =>
    .writeFile path content fun
      | .ok () => .done
      | .error e => .failed ⟨"failed to write " ++ path, [e.message]⟩
  | none => .print content

end Interaction

/-! ### Commands -/

namespace CommandLine

/-- The text of a file that is not text. -/
def notText : String := "stream did not contain valid UTF-8"

/-- Goes on with the cost table in a file, or with the built-in one where none is given. -/
def withCostTable (path : Option String) (next : CostTable → Interaction) : Interaction :=
  match path with
  | none => next .builtin
  | some path =>
    .reading path fun content ↦
      match Utf8.decode content with
      | .error _ => .failed ⟨"failed to read " ++ path, [notText]⟩
      | .ok text =>
        match (Json.parse? text).bind JsonForm.ofJson? with
        | some table => next table
        | none => .failed ⟨"invalid cost table " ++ path, []⟩

/-- Meters a binary module. -/
def meter (input : String) (output costTable : Option String)
    (options : CostTable → MeterOptions) : Interaction :=
  withCostTable costTable fun table ↦
    .reading input fun bytes ↦
      match meterBytes bytes (options table) with
      | .ok metered => .emitting output metered
      | .error e => .failed ⟨"failed to meter " ++ input, e.message :: e.causes⟩

/-- Writes a binary module as JSON. -/
def toJson (input : String) (output : Option String) : Interaction :=
  .reading input fun bytes ↦
    match Module.decode bytes with
    | .ok m => .emitting output (Utf8.encode (JsonForm.toJson m).printPretty)
    | .error e => .failed ⟨"failed to decode " ++ input, e.message :: e.cause?.toList⟩

/-- Writes the binary module of a JSON text. -/
def fromJson (input : String) (output : Option String) : Interaction :=
  .reading input fun content ↦
    match ((Json.parseBytes? content).bind JsonForm.ofJson? : Option Module) with
    | none => .failed ⟨"invalid module JSON in " ++ input, []⟩
    | some m =>
      match m.encoder.run .empty with
      | .ok bytes => .emitting output bytes
      | .error e => .failed ⟨"failed to encode " ++ input, [e.message]⟩

/-- The course of events of a command. -/
def interaction (command : CommandName) (input : String) (given : List (OptionName × String)) :
    Interaction :=
  let output := given.lookup .output
  match command with
  | .toJson => toJson input output
  | .fromJson => fromJson input output
  | .meter =>
    let standard := MeterOptions.standard
    let meterType := (given.lookup .meterType).bind ValueType.ofName?
    meter input output (given.lookup .costTable) fun table ↦
      ⟨table, (given.lookup .moduleName).getD standard.importModule,
        (given.lookup .field).getD standard.importField, meterType.getD standard.meterType⟩

/-- How the program is used. -/
def usage : String :=
  "Usage: meter|to-json|from-json INPUT [-o OUTPUT]\n" ++
    "  meter also takes --cost-table FILE, --module NAME, --field NAME, --meter-type TYPE"

/-- What the program does with its arguments: it is used wrongly, it is asked for help, or it
carries out a command. -/
inductive Action
  | misuse (error : UsageError)
  | help
  | perform (interaction : Interaction)

/-- The action of arguments. -/
def action (arguments : List String) : Action :=
  match Arguments.parse arguments with
  | .error e => .misuse e
  | .ok .help => .help
  | .ok (.run command input given) => .perform (interaction command input given)

/-- The number with which the program ends when it is used wrongly. -/
def misuseCode : Nat := 2

/-- The number with which the program ends when it could not do what it was asked for. -/
def failureCode : Nat := 1

end CommandLine

end WasmMeter
