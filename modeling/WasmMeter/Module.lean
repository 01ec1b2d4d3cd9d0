import WasmMeter.Section

/-!
# Modules

A module is eight bytes that are carried along and never judged, and its sections. Sections of one
kind may repeat; what is asked about a kind is answered by the first section of it, and a change
applies to that section alone (`replaceFirst`).

`Module.insert` puts a section in front of the first section of a later kind, custom sections aside,
so that sections in order stay in order.
-/

set_option autoImplicit false

namespace WasmMeter

/-- The eight bytes in front of the sections. -/
structure Preamble where
  magic : Vector UInt8 4
  version : UInt32
  deriving DecidableEq, Repr

/-- The preamble of a module of the first version. -/
def Preamble.standard : Preamble := ⟨#v[0x00, 0x61, 0x73, 0x6d], 1⟩

/-- A module. -/
structure Module where
  preamble : Preamble
  sections : List Section
  deriving DecidableEq, Repr

/-- Replaces the first element for which there is a replacement. -/
def replaceFirst {α : Type} (f : α → Option α) : List α → List α
  | [] => []
  | a :: later =>
    match f a with
    | some b => b :: later
    | none => a :: replaceFirst f later

namespace Module

/-- The module without sections. -/
def empty : Module := ⟨.standard, []⟩

/-- Whether a module has a section of the kind. -/
def has (m : Module) (id : SectionId) : Bool := m.sections.any fun s ↦ s.id == id

/-- Whether a section has to stand behind the sections of a kind. -/
def comesAfter (id : SectionId) (s : Section) : Bool :=
  s.id != .custom && id.toByte < s.id.toByte

/-- Puts a section in front of the first one that has to stand behind it. -/
def insertInto (s : Section) (sections : List Section) : List Section :=
  let (before, behind) := sections.span fun other ↦ !comesAfter s.id other
  before ++ s :: behind

/-- The module with another section. -/
def insert (m : Module) (s : Section) : Module :=
  { m with sections := insertInto s m.sections }

/-- The module with its first section of a kind replaced. -/
def updateFirst (f : Section → Option Section) (m : Module) : Module :=
  { m with sections := replaceFirst f m.sections }

/-- The first section of a kind. -/
def first? (m : Module) (id : SectionId) : Option Section := m.sections.find? fun s ↦ s.id == id

/-- The module with a section in the place of the first one of its kind, if it has one. -/
def replace (m : Module) (s : Section) : Module :=
  m.updateFirst fun old ↦ if old.id = s.id then some s else none

/-- The signatures, if there is a type section. -/
def types? (m : Module) : Option (List FuncType) := m.sections.findSome? Section.types?

/-- The imports, if there is an import section. -/
def imports? (m : Module) : Option (List Import) := m.sections.findSome? Section.imports?

/-- The signature indices, if there is a function section. -/
def functions? (m : Module) : Option (List UInt32) := m.sections.findSome? Section.functions?

/-- The exports, if there is an export section. -/
def exports? (m : Module) : Option (List Export) := m.sections.findSome? Section.exports?

/-- The start function, if there is a start section. -/
def start? (m : Module) : Option UInt32 := m.sections.findSome? Section.start?

/-- The element segments, if there is an element section. -/
def elements? (m : Module) : Option (List ElementSegment) :=
  m.sections.findSome? Section.elements?

/-- The bodies, if there is a code section. -/
def code? (m : Module) : Option (List FunctionBody) := m.sections.findSome? Section.code?

/-- The number of imported functions. Functions are counted imports first, so this is the index of
the first function that the module defines itself. -/
def importedFunctions (m : Module) : Nat := (m.imports?.getD []).countP Import.isFunction

end Module

end WasmMeter
