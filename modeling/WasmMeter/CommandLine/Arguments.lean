import WasmMeter.Types

/-!
# Arguments

The first argument names a command, and the others are its input and its options, in any order. An
option has its value in the next argument or behind an equals sign; the output also has the short
form `-o`, which may have its value directly behind it. A value that looks like an option needs the
equals sign. Behind `--` everything is an input. An option may be given once, a path may not be
empty, and there is exactly one input.

`Arguments.parse` reads the arguments in order, so that the first mistake counts, and a request for
help counts where nothing before it is wrong.
-/

set_option autoImplicit false

namespace WasmMeter

/-! ### Commands -/

/-- What the program can be asked to do. -/
inductive CommandName
  | meter
  | toJson
  | fromJson
  deriving DecidableEq, Repr

/-- The command of a word. -/
def CommandName.ofWord? : String → Option CommandName
  | "meter" => some .meter
  | "to-json" => some .toJson
  | "from-json" => some .fromJson
  | _ => none

/-- An option of a command. -/
inductive OptionName
  | output
  | costTable
  | moduleName
  | field
  | meterType
  deriving DecidableEq, Repr

namespace OptionName

/-- The option of a word behind two dashes. -/
def ofWord? : String → Option OptionName
  | "output" => some .output
  | "cost-table" => some .costTable
  | "module" => some .moduleName
  | "field" => some .field
  | "meter-type" => some .meterType
  | _ => none

/-- Whether a command has an option. -/
def isOf (option : OptionName) (command : CommandName) : Bool :=
  option = .output || command = .meter

/-- Whether a text can be the value of an option. -/
def admits (option : OptionName) (value : String) : Bool :=
  match option with
  | .output | .costTable => value ≠ ""
  | .moduleName | .field => true
  | .meterType => (ValueType.ofName? value).isSome

end OptionName

/-- Why arguments ask for nothing. -/
inductive UsageError
  | missingCommand
  | unknownCommand (word : String)
  | unknownOption (word : String)
  | missingValue (option : OptionName)
  | invalidValue (option : OptionName) (value : String)
  | repeatedOption (option : OptionName)
  | emptyInput
  | missingInput
  | surplusInput (word : String)
  deriving DecidableEq, Repr

/-- What arguments ask for: help, or a command with its input and the options that are given. -/
inductive Request
  | help
  | run (command : CommandName) (input : String) (options : List (OptionName × String))
  deriving DecidableEq, Repr

/-! ### Words -/

/-- The name of an option and its value, if that is attached to it. -/
def splitAtEquals (word : String) : String × Option String :=
  match word.toList.span (· ≠ '=') with
  | (name, []) => (String.ofList name, none)
  | (name, _ :: value) => (String.ofList name, some (String.ofList value))

/-- An argument: two dashes alone, an option by its long name, options by their letters, or a plain
word, which may be a dash alone. -/
inductive Argument
  | separator
  | long (name : String) (value : Option String)
  | letters (letters : List Char)
  | plain (word : String)
  deriving DecidableEq, Repr

/-- What an argument is. -/
def Argument.ofWord (word : String) : Argument :=
  match word.toList with
  | ['-', '-'] => .separator
  | '-' :: '-' :: rest =>
    let (name, value) := splitAtEquals (String.ofList rest)
    .long name value
  | '-' :: letter :: rest => .letters (letter :: rest)
  | _ => .plain word

/-- What has been read of the arguments of a command. -/
structure Given where
  command : CommandName
  input : Option String
  options : List (OptionName × String)
  deriving DecidableEq, Repr

namespace Given

/-- What is given together with an option. -/
def withOption (given : Given) (option : OptionName) (value : String) :
    Except UsageError Given :=
  if (given.options.lookup option).isSome then .error (.repeatedOption option)
  else if option.admits value then
    .ok { given with options := given.options ++ [(option, value)] }
  else .error (.invalidValue option value)

/-- What is given together with an input. -/
def withInput (given : Given) (word : String) : Except UsageError Given :=
  if given.input.isSome then .error (.surplusInput word)
  else if word = "" then .error .emptyInput
  else .ok { given with input := some word }

/-- What is given together with inputs. -/
def withInputs (given : Given) (words : List String) : Except UsageError Given :=
  words.foldlM withInput given

/-- The request of all that is given. -/
def request (given : Given) : Except UsageError Request :=
  match given.input with
  | some input => .ok (.run given.command input given.options)
  | none => .error .missingInput

/-- The value that letters of an option have behind them, an equals sign not counted. -/
def attachedValue? : List Char → Option String
  | [] => none
  | '=' :: value => some (String.ofList value)
  | value => some (String.ofList value)

mutual

/-- Reads the arguments that are left. -/
def parse (given : Given) : List String → Except UsageError Request
  | [] => given.request
  | word :: later =>
    match Argument.ofWord word with
    | .separator => do (← given.withInputs later).request
    | .plain word =>
      match given.withInput word with
      | .ok given => given.parse later
      | .error e => .error e
    | .letters ('h' :: _) => .ok .help
    | .letters ('o' :: rest) => given.parseOption .output (attachedValue? rest) later
    | .letters _ => .error (.unknownOption word)
    | .long "help" none => .ok .help
    | .long name value =>
      match OptionName.ofWord? name with
      | some option =>
        if option.isOf given.command then given.parseOption option value later
        else .error (.unknownOption word)
      | none => .error (.unknownOption word)

/-- Reads an option, whose value may be in the next argument, and the arguments behind it. -/
def parseOption (given : Given) (option : OptionName) (attached : Option String) :
    List String → Except UsageError Request
  | [] =>
    match attached with
    | some value => do (← given.withOption option value).request
    | none => .error (.missingValue option)
  | word :: later =>
    match attached with
    | some value =>
      match given.withOption option value with
      | .ok given => given.parse (word :: later)
      | .error e => .error e
    | none =>
      match Argument.ofWord word with
      | .plain value =>
        match given.withOption option value with
        | .ok given => given.parse later
        | .error e => .error e
      | _ => .error (.missingValue option)

end

end Given

namespace Arguments

/-- The request of the words behind `help`: at most one, which is a command or `help` again. -/
def helpRequest : List String → Except UsageError Request
  | [] => .ok .help
  | topic :: later =>
    if (CommandName.ofWord? topic).isNone ∧ topic ≠ "help" then .error (.unknownCommand topic)
    else
      match later with
      | [] => .ok .help
      | surplus :: _ => .error (.unknownCommand surplus)

/-- Reads arguments. -/
def parse : List String → Except UsageError Request
  | [] => .error .missingCommand
  | word :: later =>
    match Argument.ofWord word, CommandName.ofWord? word with
    | .plain _, some command => (Given.mk command none []).parse later
    | .plain "help", none => helpRequest later
    | .plain word, none => .error (.unknownCommand word)
    | .long "help" none, _ => .ok .help
    | .letters ('h' :: _), _ => .ok .help
    | _, _ => .error (.unknownOption word)

end Arguments

end WasmMeter
