import WasmMeter.Binary.Module

/-!
# Nodes

A node is a part of a module that has a binary form of its own. `NodeKind` names the kinds of nodes,
`NodeKind.Carrier` is the type of the nodes of a kind, and `NodeKind.decode` and `NodeKind.encode`
read and write them, so that one statement can speak of all.
-/

set_option autoImplicit false

namespace WasmMeter

/-- The kinds of nodes. The content of a section is a node for each kind of section. -/
inductive NodeKind
  | index
  | valueType
  | languageType
  | externalKind
  | limits
  | tableType
  | globalType
  | funcType
  | importEntry
  | globalEntry
  | exportEntry
  | elementSegment
  | localGroup
  | functionBody
  | dataSegment
  | instruction
  | content (id : SectionId)
  deriving DecidableEq, Repr

namespace NodeKind

/-- The type of the nodes of a kind. -/
@[reducible]
def Carrier : NodeKind → Type
  | .index => UInt32
  | .valueType => ValueType
  | .languageType => LanguageType
  | .externalKind => ExternalKind
  | .limits => Limits
  | .tableType => TableType
  | .globalType => GlobalType
  | .funcType => FuncType
  | .importEntry => Import
  | .globalEntry => Global
  | .exportEntry => Export
  | .elementSegment => ElementSegment
  | .localGroup => LocalGroup
  | .functionBody => FunctionBody
  | .dataSegment => DataSegment
  | .instruction => Instruction
  | .content _ => Section

/-- Reads a node. -/
def decode : (kind : NodeKind) → Decoder kind.Carrier
  | .index => Decoder.varUint32
  | .valueType => ValueType.decode
  | .languageType => LanguageType.decode
  | .externalKind => ExternalKind.decode
  | .limits => Limits.decode
  | .tableType => TableType.decode
  | .globalType => GlobalType.decode
  | .funcType => FuncType.decode
  | .importEntry => Import.decode
  | .globalEntry => Global.decode
  | .exportEntry => Export.decode
  | .elementSegment => ElementSegment.decode
  | .localGroup => LocalGroup.decode
  | .functionBody => FunctionBody.decode
  | .dataSegment => DataSegment.decode
  | .instruction => Instruction.decode
  | .content id => Section.decodeContent id

/-- Writes a node. -/
def encode : (kind : NodeKind) → kind.Carrier → Encoder Unit
  | .index => Encoder.varUint32
  | .valueType => ValueType.encode
  | .languageType => LanguageType.encode
  | .externalKind => ExternalKind.encode
  | .limits => Limits.encode
  | .tableType => TableType.encode
  | .globalType => GlobalType.encode
  | .funcType => FuncType.encode
  | .importEntry => Import.encode
  | .globalEntry => Global.encode
  | .exportEntry => Export.encode
  | .elementSegment => ElementSegment.encode
  | .localGroup => LocalGroup.encode
  | .functionBody => FunctionBody.encode
  | .dataSegment => DataSegment.encode
  | .instruction => Instruction.encode
  | .content _ => Section.encodeContent

end NodeKind

end WasmMeter
