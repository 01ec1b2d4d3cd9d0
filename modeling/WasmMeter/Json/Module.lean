import WasmMeter.Gas.Metering
import WasmMeter.Json.Node

/-!
# The JSON form of modules

Every part of a module, the cost tables and the options of metering have a JSON form. A section is
its fields together with its kind, which is given by the field `name`; as an array it has the kind
in front. In a section everything has to be readable, ignored fields included, and an empty object
may stand for the `null` behind a name (`Json.nullNames`).
-/

set_option autoImplicit false

namespace WasmMeter

open JsonForm

/-! ### Types -/

instance : JsonForm ValueType where
  toJson type := .string type.name
  ofJson? := named? ValueType.ofName?

instance : JsonForm LanguageType where
  toJson type := .string type.name
  ofJson? := named? LanguageType.ofName?

instance : JsonForm ExternalKind where
  toJson kind := .string kind.name
  ofJson? := named? ExternalKind.ofName?

instance : JsonForm Limits where
  toJson limits :=
    .object (("initial", toJson limits.initial) :: optionalMember "maximum" limits.maximum)
  ofJson? j := do
    let given ← record? ["initial", "maximum"] j
    pure ⟨← required? given "initial", ← optional? given "maximum"⟩

instance : JsonForm TableType where
  toJson type :=
    .object [("element_type", toJson type.elementType), ("limits", toJson type.limits)]
  ofJson? j := do
    let given ← record? ["element_type", "limits"] j
    pure ⟨← required? given "element_type", ← required? given "limits"⟩

instance : JsonForm GlobalType where
  toJson type :=
    .object [("content_type", toJson type.contentType), ("mutable", toJson type.isMutable)]
  ofJson? j := do
    let given ← record? ["content_type", "mutable"] j
    pure ⟨← required? given "content_type", ← required? given "mutable"⟩

instance : JsonForm FuncType where
  toJson type :=
    .object (("form", toJson type.form) :: ("params", toJson type.params) ::
      optionalMember "return_type" type.result)
  ofJson? j := do
    let given ← record? ["form", "params", "return_type"] j
    pure ⟨← required? given "form", ← required? given "params", ← optional? given "return_type"⟩

/-! ### Instructions -/

instance : JsonForm BranchTable where
  toJson table :=
    .object [("targets", toJson table.targets), ("default_target", toJson table.defaultTarget)]
  ofJson? j := do
    let given ← record? ["targets", "default_target"] j
    pure ⟨← required? given "targets", ← required? given "default_target"⟩

instance : JsonForm IndirectCall where
  toJson call := .object [("index", toJson call.typeIndex), ("reserved", toJson call.reserved)]
  ofJson? j := do
    let given ← record? ["index", "reserved"] j
    pure ⟨← required? given "index", ← required? given "reserved"⟩

instance : JsonForm MemoryAccess where
  toJson access := .object [("flags", toJson access.flags), ("offset", toJson access.offset)]
  ofJson? j := do
    let given ← record? ["flags", "offset"] j
    pure ⟨← required? given "flags", ← required? given "offset"⟩

instance : JsonForm Immediate where
  toJson
    | .varUint1 value => variant "var_uint1" (toJson value)
    | .varUint32 value => variant "var_uint32" (toJson value)
    | .varInt32 value => variant "var_int32" (toJson value)
    | .varInt64 value => variant "var_int64" (toJson value)
    | .uint32 bytes => variant "uint32" (toJson bytes)
    | .uint64 bytes => variant "uint64" (toJson bytes)
    | .blockType type => variant "block_type" (toJson type)
    | .branchTable table => variant "branch_table" (toJson table)
    | .callIndirect call => variant "call_indirect" (toJson call)
    | .memory access => variant "memory" (toJson access)
  ofJson? j := do
    match ← variant? j with
    | ("var_uint1", value) => .varUint1 <$> ofJson? value
    | ("var_uint32", value) => .varUint32 <$> ofJson? value
    | ("var_int32", value) => .varInt32 <$> ofJson? value
    | ("var_int64", value) => .varInt64 <$> ofJson? value
    | ("uint32", bytes) => .uint32 <$> ofJson? bytes
    | ("uint64", bytes) => .uint64 <$> ofJson? bytes
    | ("block_type", type) => .blockType <$> ofJson? type
    | ("branch_table", table) => .branchTable <$> ofJson? table
    | ("call_indirect", call) => .callIndirect <$> ofJson? call
    | ("memory", access) => .memory <$> ofJson? access
    | _ => none

instance : JsonForm Instruction where
  toJson instruction :=
    .object (("name", toJson instruction.name) ::
      (optionalMember "return_type" instruction.type ++
        optionalMember "immediate" instruction.immediate))
  ofJson? j := do
    let given ← record? ["name", "return_type", "immediate"] j
    pure ⟨← required? given "name", ← optional? given "return_type", ← optional? given "immediate"⟩

/-! ### Entries -/

instance : JsonForm Imported where
  toJson
    | .function typeIndex => variant "function" (toJson typeIndex)
    | .table type => variant "table" (toJson type)
    | .memory limits => variant "memory" (toJson limits)
    | .global type => variant "global" (toJson type)
  ofJson? j := do
    match ← variant? j with
    | ("function", typeIndex) => .function <$> ofJson? typeIndex
    | ("table", type) => .table <$> ofJson? type
    | ("memory", limits) => .memory <$> ofJson? limits
    | ("global", type) => .global <$> ofJson? type
    | _ => none

instance : JsonForm Import where
  toJson entry :=
    .object [("module", toJson entry.moduleName), ("field", toJson entry.field),
      ("kind", toJson entry.item)]
  ofJson? j := do
    let given ← record? ["module", "field", "kind"] j
    pure ⟨← required? given "module", ← required? given "field", ← required? given "kind"⟩

instance : JsonForm Global where
  toJson entry := .object [("type", toJson entry.type), ("init", toJson entry.init)]
  ofJson? j := do
    let given ← record? ["type", "init"] j
    pure ⟨← required? given "type", ← required? given "init"⟩

instance : JsonForm Export where
  toJson entry :=
    .object [("field", toJson entry.field), ("kind", toJson entry.kind),
      ("index", toJson entry.index)]
  ofJson? j := do
    let given ← record? ["field", "kind", "index"] j
    pure ⟨← required? given "field", ← required? given "kind", ← required? given "index"⟩

instance : JsonForm ElementSegment where
  toJson segment :=
    .object [("index", toJson segment.table), ("offset", toJson segment.offset),
      ("elements", toJson segment.functions)]
  ofJson? j := do
    let given ← record? ["index", "offset", "elements"] j
    pure ⟨← required? given "index", ← required? given "offset", ← required? given "elements"⟩

instance : JsonForm LocalGroup where
  toJson group := .object [("count", toJson group.count), ("type", toJson group.type)]
  ofJson? j := do
    let given ← record? ["count", "type"] j
    pure ⟨← required? given "count", ← required? given "type"⟩

instance : JsonForm FunctionBody where
  toJson body := .object [("locals", toJson body.locals), ("code", toJson body.code)]
  ofJson? j := do
    let given ← record? ["locals", "code"] j
    pure ⟨← required? given "locals", ← required? given "code"⟩

instance : JsonForm DataSegment where
  toJson segment :=
    .object [("index", toJson segment.memory), ("offset", toJson segment.offset),
      ("data", toJson segment.data)]
  ofJson? j := do
    let given ← record? ["index", "offset", "data"] j
    pure ⟨← required? given "index", ← required? given "offset", ← required? given "data"⟩

/-! ### Sections -/

namespace Json

mutual

/-- A value in which a lone name with an empty object has `null` in its place. -/
def nullNames : Json → Json
  | .array elements => .array (nullNamesOfElements elements)
  | .object [(name, .object [])] => .object [(name, .null)]
  | .object members => .object (nullNamesOfMembers members)
  | j => j

/-- `nullNames` on the elements of an array. -/
def nullNamesOfElements : List Json → List Json
  | [] => []
  | j :: later => j.nullNames :: nullNamesOfElements later

/-- `nullNames` on the members of an object. -/
def nullNamesOfMembers : List (String × Json) → List (String × Json)
  | [] => []
  | m :: later => nullNamesOfMember m :: nullNamesOfMembers later

/-- `nullNames` on the value of a member. -/
def nullNamesOfMember : String × Json → String × Json
  | (name, j) => (name, j.nullNames)

end

end Json

namespace Section

/-- The fields of a section. -/
def contentMembers : Section → List (String × Json)
  | .custom name payload => [("section_name", toJson name), ("payload", toJson payload)]
  | .types entries => [("entries", toJson entries)]
  | .imports entries => [("entries", toJson entries)]
  | .functions typeIndices => [("entries", toJson typeIndices)]
  | .tables entries => [("entries", toJson entries)]
  | .memories entries => [("entries", toJson entries)]
  | .globals entries => [("entries", toJson entries)]
  | .exports entries => [("entries", toJson entries)]
  | .start function => [("index", toJson function)]
  | .elements segments => [("entries", toJson segments)]
  | .code bodies => [("entries", toJson bodies)]
  | .data segments => [("entries", toJson segments)]

/-- A section without its kind. -/
def contentToJson (s : Section) : Json := .object s.contentMembers

/-- The entries of a section. -/
def entries? {α : Type} [JsonForm α] (j : Json) : Option (List α) := do
  required? (← record? ["entries"] j) "entries"

/-- The section of a kind that has the fields. -/
def contentOfJson? (id : SectionId) (j : Json) : Option Section :=
  match id with
  | .custom => do
    let given ← record? ["section_name", "payload"] j
    pure (.custom (← required? given "section_name") (← required? given "payload"))
  | .type => .types <$> entries? j
  | .import => .imports <$> entries? j
  | .function => .functions <$> entries? j
  | .table => .tables <$> entries? j
  | .memory => .memories <$> entries? j
  | .global => .globals <$> entries? j
  | .export => .exports <$> entries? j
  | .start => do
    let given ← record? ["index"] j
    pure (.start (← required? given "index"))
  | .element => .elements <$> entries? j
  | .code => .code <$> entries? j
  | .data => .data <$> entries? j

/-- The field that holds the kind of a section. -/
def kindField : String := "name"

/-- The kind of a section and its fields. -/
def kindOfJson? : Json → Option (SectionId × Json)
  | .object members =>
    match members.filter fun m ↦ m.1 == kindField with
    | [(_, .string name)] => (SectionId.ofName? name).map (·, .object members)
    | _ => none
  | .array (.string name :: fields) => (SectionId.ofName? name).map (·, .array fields)
  | _ => none

instance : JsonForm Section where
  toJson s := .object ((kindField, .string s.id.name) :: s.contentMembers)
  ofJson? j := do
    guard j.isUsable
    let (id, content) ← kindOfJson? j.nullNames
    contentOfJson? id content

end Section

/-! ### Modules -/

instance : JsonForm Preamble where
  toJson preamble :=
    .object [("magic", toJson preamble.magic), ("version", toJson preamble.version)]
  ofJson? j := do
    let given ← record? ["magic", "version"] j
    pure ⟨← required? given "magic", ← required? given "version"⟩

instance : JsonForm Module where
  toJson m := .object [("preamble", toJson m.preamble), ("sections", toJson m.sections)]
  ofJson? j := do
    let given ← record? ["preamble", "sections"] j
    pure ⟨← required? given "preamble", ← required? given "sections"⟩

/-! ### Cost tables -/

namespace Cost

mutual

/-- Writes a cost. -/
def write : Cost → Json
  | .flat cost => toJson cost
  | .table entries => .object (writeEntries entries)

/-- Writes the entries of a table. -/
def writeEntries : List (String × Cost) → List (String × Json)
  | [] => []
  | entry :: later => writeEntry entry :: writeEntries later

/-- Writes an entry of a table. -/
def writeEntry : String × Cost → String × Json
  | (key, cost) => (key, cost.write)

end

mutual

/-- Reads a cost. -/
def read? : Json → Option Cost
  | .integer value => .flat <$> ofJson? (.integer value)
  | .object members => (readEntries? members).map fun entries ↦ .table (CostTable.ofList entries)
  | _ => none

/-- Reads the entries of a table. -/
def readEntries? : List (String × Json) → Option (List (String × Cost))
  | [] => some []
  | m :: later => do
    let entry ← readEntry? m
    let entries ← readEntries? later
    pure (entry :: entries)

/-- Reads an entry of a table. -/
def readEntry? : String × Json → Option (String × Cost)
  | (key, j) => (read? j).map (key, ·)

end

end Cost

instance (priority := high) : JsonForm CostTable where
  toJson table := .object (Cost.writeEntries table)
  ofJson?
    | .object members => (Cost.readEntries? members).map CostTable.ofList
    | _ => none

/-- A cost that may be missing, as JSON. -/
def Cost.writeOption : Option Cost → Json
  | some cost => cost.write
  | none => .null

instance : JsonForm MeterOptions where
  toJson options :=
    .object [("cost_table", toJson options.costTable),
      ("import_module", toJson options.importModule),
      ("import_field", toJson options.importField), ("meter_type", toJson options.meterType)]
  ofJson? j := do
    let given ← record? ["cost_table", "import_module", "import_field", "meter_type"] j
    let standard := MeterOptions.standard
    pure ⟨← defaulted? standard.costTable given "cost_table",
      ← defaulted? standard.importModule given "import_module",
      ← defaulted? standard.importField given "import_field",
      ← defaulted? standard.meterType given "meter_type"⟩

end WasmMeter
