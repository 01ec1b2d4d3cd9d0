import WasmMeter.Bytes

/-!
# The world of a command

A command sees files and prints, and a `World` is the files by their places and what has been
printed. A place is a list of names below an origin, which is the root, the working directory, or a
directory above that.

A path is names between slashes. All but the last one have to lead through directories
(`World.enclosing`); `.` stays and `..` goes up, which from the root leads to the root. A name takes
at most 255 bytes and a path fewer than 4096. A path that ends in a slash names a directory.

Of what lies outside of the working directory only that is known which every system has: the
directories above it, the root, the standard directories below the root, and a few devices.
-/

set_option autoImplicit false

namespace WasmMeter

/-! ### Errors -/

/-- Why a file cannot be read or written. -/
inductive FileError
  | notFound
  | notDirectory
  | isDirectory
  | noSpace
  | nameTooLong
  | other (description : String)
  deriving DecidableEq, Repr

/-- The error in words. -/
def FileError.message : FileError → String
  | .notFound => "No such file or directory (os error 2)"
  | .notDirectory => "Not a directory (os error 20)"
  | .isDirectory => "Is a directory (os error 21)"
  | .noSpace => "No space left on device (os error 28)"
  | .nameTooLong => "File name too long (os error 36)"
  | .other description => description

/-- The error of a number that the system gives it, with the words of the system for it. -/
def FileError.ofCode (code : Nat) (description : String) : FileError :=
  match code with
  | 2 => .notFound
  | 20 => .notDirectory
  | 21 => .isDirectory
  | 28 => .noSpace
  | 36 => .nameTooLong
  | _ => .other (description ++ " (os error " ++ toString code ++ ")")

/-! ### Places -/

/-- Where the names of a place start: at the root, or at the directory that stands a number of
levels above the working directory, which itself stands at level zero. -/
inductive Origin
  | root
  | level (height : Nat)
  deriving DecidableEq, Repr

/-- An origin, and the names on the way from there. -/
structure Place where
  origin : Origin
  names : List String
  deriving DecidableEq, Repr

/-- The longest name, in bytes. -/
def maxName : Nat := 255

/-- The longest path, in bytes. -/
def maxPath : Nat := 4095

namespace Place

/-- The place of the names in the working directory. -/
def working (names : List String) : Place := ⟨.level 0, names⟩

/-- The directory that a place is in. -/
def parent (place : Place) : Place :=
  match place.origin, place.names with
  | .root, [] => place
  | .level height, [] => ⟨.level (height + 1), []⟩
  | origin, names => ⟨origin, names.dropLast⟩

/-- The place of a name in the directory of a place. -/
def child (place : Place) (name : String) : Except FileError Place :=
  if name = "." then .ok place
  else if name = ".." then .ok place.parent
  else if maxName < name.utf8ByteSize then .error .nameTooLong
  else .ok { place with names := place.names ++ [name] }

/-- Whether a place is on the way to another one. -/
def leadsTo (place other : Place) : Bool :=
  place.origin = other.origin && place.names.isPrefixOf other.names

end Place

/-! ### Paths -/

namespace Path

/-- The names in a path. -/
def names (path : String) : List String := (path.splitOn "/").filter (· ≠ "")

/-- Where a path starts. -/
def origin (path : String) : Origin := if path.startsWith "/" then .root else .level 0

/-- Whether a path can name a directory only. -/
def endsInSlash (path : String) : Bool := path.endsWith "/"

end Path

/-! ### What is known of every system -/

/-- A file that stands for a device. -/
inductive Device
  | null
  | full
  | standardInput
  | standardOutput
  | standardError
  deriving DecidableEq, Repr

/-- The directory of the devices. -/
def deviceDirectory : String := "dev"

/-- The device of a name. -/
def Device.ofName? : String → Option Device
  | "null" => some .null
  | "full" => some .full
  | "stdin" => some .standardInput
  | "stdout" => some .standardOutput
  | "stderr" => some .standardError
  | _ => none

/-- The directories that stand below the root. -/
def standardDirectories : List String :=
  ["bin", "boot", deviceDirectory, "etc", "home", "lib", "media", "mnt", "opt", "proc", "root",
    "run", "sbin", "srv", "sys", "tmp", "usr", "var"]

/-! ### Worlds -/

/-- Files, and what has been printed. -/
structure World where
  files : List (Place × Bytes)
  printed : Bytes
  deriving DecidableEq, Repr

/-- What stands at a place. -/
inductive Entry
  | file (content : Bytes)
  | device (device : Device)
  | directory
  | missing
  deriving DecidableEq, Repr

/-- What stands at a place in every system. -/
def Entry.standard : Place → Entry
  | ⟨_, []⟩ => .directory
  | ⟨.root, [name]⟩ => if standardDirectories.contains name then .directory else .missing
  | ⟨.root, [parent, name]⟩ =>
    if parent = deviceDirectory then (Device.ofName? name).elim .missing .device else .missing
  | _ => .missing

namespace World

/-- The world with files in the working directory, in which nothing has been printed. -/
def ofFiles (files : List (String × Bytes)) : World :=
  ⟨files.map fun (path, content) ↦ (.working (Path.names path), content), []⟩

/-- What stands at a place. -/
def entry (world : World) (place : Place) : Entry :=
  match world.files.lookup place with
  | some content => .file content
  | none =>
    if world.files.any fun (file, _) ↦ place.leadsTo file then .directory
    else Entry.standard place

/-- The directory that is reached from a place by names. -/
def follow (world : World) : (place : Place) → List String → Except FileError Place
  | place, [] => .ok place
  | place, name :: later =>
    match place.child name with
    | .error e => .error e
    | .ok next =>
      match world.entry next with
      | .directory => world.follow next later
      | .file _ | .device _ => .error .notDirectory
      | .missing => .error .notFound

/-- The directory in which the last name of a path is looked up. -/
def enclosing (world : World) (path : String) : Except FileError Place :=
  if maxPath < path.utf8ByteSize then .error .nameTooLong
  else world.follow ⟨Path.origin path, []⟩ (Path.names path).dropLast

/-- The place of a path. -/
def place (world : World) (path : String) : Except FileError Place := do
  let directory ← world.enclosing path
  match (Path.names path).getLast? with
  | some name => directory.child name
  | none => pure directory

/-- The content of a file. Devices have none. -/
def read (world : World) (path : String) : Except FileError Bytes := do
  let found := world.entry (← world.place path)
  match found with
  | .directory => .error .isDirectory
  | .missing => .error .notFound
  | .file content => if Path.endsInSlash path then .error .notDirectory else .ok content
  | .device _ => if Path.endsInSlash path then .error .notDirectory else .ok []

/-- The world with more printed. -/
def print (world : World) (content : Bytes) : World :=
  { world with printed := world.printed ++ content }

/-- The world with content in the file of a place. -/
def put (world : World) (place : Place) (content : Bytes) : World :=
  if (world.files.lookup place).isSome then
    { world with
      files := world.files.map fun (file, old) ↦ (file, if file = place then content else old) }
  else { world with files := world.files ++ [(place, content)] }

/-- The world with content written to a device. -/
def send (world : World) (device : Device) (content : Bytes) : Except FileError World :=
  match device with
  | .full => if content = [] then .ok world else .error .noSpace
  | .standardOutput => .ok (world.print content)
  | .null | .standardInput | .standardError => .ok world

/-- The world with content in a file, in the place of other content. -/
def write (world : World) (path : String) (content : Bytes) : Except FileError World := do
  let _ ← world.enclosing path
  if Path.endsInSlash path then .error .isDirectory
  else
    let place ← world.place path
    match world.entry place with
    | .directory => .error .isDirectory
    | .device device => world.send device content
    | .file _ | .missing => .ok (world.put place content)

/-- The files in the working directory that another world lacks or has other content in. -/
def changesSince (world before : World) : List (String × Bytes) :=
  world.files.filterMap fun (place, content) ↦
    if place.origin = .level 0 ∧ before.files.lookup place ≠ some content then
      some ("/".intercalate place.names, content)
    else none

end World

end WasmMeter
