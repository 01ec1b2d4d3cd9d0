import WasmMeter.Binary.Node
import WasmMeter.Json.Module

/-!
# The JSON form of nodes

Every kind of node has a JSON form. The content of a section has its fields without the kind.
-/

set_option autoImplicit false

namespace WasmMeter.NodeKind

/-- The JSON form of the nodes of a kind. -/
@[reducible]
def jsonForm : (kind : NodeKind) → JsonForm kind.Carrier
  | .index => (inferInstance : JsonForm UInt32)
  | .valueType => (inferInstance : JsonForm ValueType)
  | .languageType => (inferInstance : JsonForm LanguageType)
  | .externalKind => (inferInstance : JsonForm ExternalKind)
  | .limits => (inferInstance : JsonForm Limits)
  | .tableType => (inferInstance : JsonForm TableType)
  | .globalType => (inferInstance : JsonForm GlobalType)
  | .funcType => (inferInstance : JsonForm FuncType)
  | .importEntry => (inferInstance : JsonForm Import)
  | .globalEntry => (inferInstance : JsonForm Global)
  | .exportEntry => (inferInstance : JsonForm Export)
  | .elementSegment => (inferInstance : JsonForm ElementSegment)
  | .localGroup => (inferInstance : JsonForm LocalGroup)
  | .functionBody => (inferInstance : JsonForm FunctionBody)
  | .dataSegment => (inferInstance : JsonForm DataSegment)
  | .instruction => (inferInstance : JsonForm Instruction)
  | .content id => ⟨Section.contentToJson, Section.contentOfJson? id⟩

end WasmMeter.NodeKind
