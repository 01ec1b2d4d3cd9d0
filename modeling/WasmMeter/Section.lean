import WasmMeter.Instruction

/-!
# Sections

A module is a sequence of sections, each of one of twelve kinds. Apart from custom sections, whose
content is opaque, and from the start section, which names one function, a section is a list of
entries.
-/

set_option autoImplicit false

namespace WasmMeter

/-! ### Entries -/

/-- What an import supplies. A function is given by the index of its signature. -/
inductive Imported
  | function (typeIndex : UInt32)
  | table (type : TableType)
  | memory (limits : Limits)
  | global (type : GlobalType)
  deriving DecidableEq, Repr

/-- An import: the module and the field that it comes from, and what it supplies. -/
structure Import where
  moduleName : String
  field : String
  item : Imported
  deriving DecidableEq, Repr

/-- Whether an import supplies a function. -/
def Import.isFunction (entry : Import) : Bool :=
  match entry.item with
  | .function _ => true
  | _ => false

/-- A global variable and the instruction that computes its first value. -/
structure Global where
  type : GlobalType
  init : Instruction
  deriving DecidableEq, Repr

/-- An export: its name, and the kind and the index of what it exports. -/
structure Export where
  field : String
  kind : ExternalKind
  index : UInt32
  deriving DecidableEq, Repr

/-- Functions that are stored in a table from an offset on. -/
structure ElementSegment where
  table : UInt32
  offset : Instruction
  functions : List UInt32
  deriving DecidableEq, Repr

/-- A number of consecutive locals of one type. -/
structure LocalGroup where
  count : UInt32
  type : ValueType
  deriving DecidableEq, Repr

/-- The locals and the code of a function. -/
structure FunctionBody where
  locals : List LocalGroup
  code : List Instruction
  deriving DecidableEq, Repr

/-- Bytes that are stored in a memory from an offset on. -/
structure DataSegment where
  memory : UInt32
  offset : Instruction
  data : Bytes
  deriving DecidableEq, Repr

/-! ### Kinds of sections -/

/-- The kind of a section. -/
inductive SectionId
  | custom
  | type
  | import
  | function
  | table
  | memory
  | global
  | export
  | start
  | element
  | code
  | data
  deriving DecidableEq, Repr

namespace SectionId

/-- All kinds, in the order of their bytes. -/
def all : List SectionId :=
  [.custom, .type, .import, .function, .table, .memory, .global, .export, .start, .element, .code,
    .data]

/-- The byte of a kind. Sections that are not custom stand in a module in this order. -/
def toByte : SectionId → UInt8
  | .custom => 0
  | .type => 1
  | .import => 2
  | .function => 3
  | .table => 4
  | .memory => 5
  | .global => 6
  | .export => 7
  | .start => 8
  | .element => 9
  | .code => 10
  | .data => 11

/-- The kind of a byte. -/
def ofByte? (byte : UInt8) : Option SectionId := all.find? fun id ↦ id.toByte == byte

@[simp]
theorem ofByte?_toByte (id : SectionId) : ofByte? id.toByte = some id := by
  cases id <;> rfl

/-- The name of a kind. -/
def name : SectionId → String
  | .custom => "custom"
  | .type => "type"
  | .import => "import"
  | .function => "function"
  | .table => "table"
  | .memory => "memory"
  | .global => "global"
  | .export => "export"
  | .start => "start"
  | .element => "element"
  | .code => "code"
  | .data => "data"

/-- The kind of a name. -/
def ofName? (name : String) : Option SectionId := all.find? fun id ↦ id.name == name

@[simp]
theorem ofName?_name (id : SectionId) : ofName? id.name = some id := by
  cases id <;> rfl

/-- The name of a kind in messages, with a capital. -/
def title : SectionId → String
  | .custom => "Custom"
  | .type => "Type"
  | .import => "Import"
  | .function => "Function"
  | .table => "Table"
  | .memory => "Memory"
  | .global => "Global"
  | .export => "Export"
  | .start => "Start"
  | .element => "Element"
  | .code => "Code"
  | .data => "Data"

end SectionId

/-! ### Sections -/

/-- A section. -/
inductive Section
  | custom (name : String) (payload : Bytes)
  | types (entries : List FuncType)
  | imports (entries : List Import)
  | functions (typeIndices : List UInt32)
  | tables (entries : List TableType)
  | memories (entries : List Limits)
  | globals (entries : List Global)
  | exports (entries : List Export)
  | start (function : UInt32)
  | elements (segments : List ElementSegment)
  | code (bodies : List FunctionBody)
  | data (segments : List DataSegment)
  deriving DecidableEq, Repr

namespace Section

/-- The kind of a section. -/
def id : Section → SectionId
  | .custom _ _ => .custom
  | .types _ => .type
  | .imports _ => .import
  | .functions _ => .function
  | .tables _ => .table
  | .memories _ => .memory
  | .globals _ => .global
  | .exports _ => .export
  | .start _ => .start
  | .elements _ => .element
  | .code _ => .code
  | .data _ => .data

/-- The section of a kind that has no entries. Custom and start sections have content always. -/
def empty? : SectionId → Option Section
  | .type => some (.types [])
  | .import => some (.imports [])
  | .function => some (.functions [])
  | .table => some (.tables [])
  | .memory => some (.memories [])
  | .global => some (.globals [])
  | .export => some (.exports [])
  | .element => some (.elements [])
  | .code => some (.code [])
  | .data => some (.data [])
  | .custom => none
  | .start => none

theorem id_of_empty? {id : SectionId} {s : Section} (h : empty? id = some s) :
    s.id = id := by
  cases id <;> simp [empty?] at h <;> subst h <;> rfl

/-! ### Entries of a section of one kind -/

/-- The signatures of a type section. -/
def types? : Section → Option (List FuncType)
  | .types entries => some entries
  | _ => none

/-- The imports of an import section. -/
def imports? : Section → Option (List Import)
  | .imports entries => some entries
  | _ => none

/-- The signature indices of a function section. -/
def functions? : Section → Option (List UInt32)
  | .functions typeIndices => some typeIndices
  | _ => none

/-- The exports of an export section. -/
def exports? : Section → Option (List Export)
  | .exports entries => some entries
  | _ => none

/-- The function of a start section. -/
def start? : Section → Option UInt32
  | .start function => some function
  | _ => none

/-- The segments of an element section. -/
def elements? : Section → Option (List ElementSegment)
  | .elements segments => some segments
  | _ => none

/-- The bodies of a code section. -/
def code? : Section → Option (List FunctionBody)
  | .code bodies => some bodies
  | _ => none

end Section

end WasmMeter
