import WasmMeter.Bytes

/-!
# The types of the binary format

A `ValueType` is what a local, a parameter or a result holds. A `LanguageType` is any type
constructor of the format; each is stored as one byte, and `LanguageType.ofByte?_toByte` and its
companions say that the byte determines it. Every type, kind and section has a fixed name.
-/

set_option autoImplicit false

namespace WasmMeter

/-! ### Values -/

/-- The type of a value. -/
inductive ValueType
  | i32
  | i64
  | f32
  | f64
  deriving DecidableEq, Repr

namespace ValueType

/-- The name of a value type. -/
def name : ValueType → String
  | .i32 => "i32"
  | .i64 => "i64"
  | .f32 => "f32"
  | .f64 => "f64"

/-- The value type of a name. -/
def ofName? : String → Option ValueType
  | "i32" => some .i32
  | "i64" => some .i64
  | "f32" => some .f32
  | "f64" => some .f64
  | _ => none

@[simp]
theorem ofName?_name (type : ValueType) : ofName? type.name = some type := by
  cases type <;> rfl

/-- The byte of a value type. -/
def toByte : ValueType → UInt8
  | .i32 => 0x7f
  | .i64 => 0x7e
  | .f32 => 0x7d
  | .f64 => 0x7c

/-- The value type of a byte. -/
def ofByte? : UInt8 → Option ValueType
  | 0x7f => some .i32
  | 0x7e => some .i64
  | 0x7d => some .f32
  | 0x7c => some .f64
  | _ => none

@[simp]
theorem ofByte?_toByte (type : ValueType) : ofByte? type.toByte = some type := by
  cases type <;> rfl

end ValueType

/-! ### Type constructors -/

/-- A type constructor: a value type, the element type of a table, the form of a signature, or
the type of a block without a result. -/
inductive LanguageType
  | value (type : ValueType)
  | anyFunc
  | func
  | emptyBlock
  deriving DecidableEq, Repr

namespace LanguageType

/-- The name of a type constructor. -/
def name : LanguageType → String
  | .value type => type.name
  | .anyFunc => "anyFunc"
  | .func => "func"
  | .emptyBlock => "block_type"

/-- The type constructor of a name. -/
def ofName? : String → Option LanguageType
  | "anyFunc" => some .anyFunc
  | "func" => some .func
  | "block_type" => some .emptyBlock
  | other => (ValueType.ofName? other).map .value

@[simp]
theorem ofName?_name (type : LanguageType) : ofName? type.name = some type := by
  rcases type with (_ | _ | _ | _) | _ | _ | _ <;> rfl

/-- The byte of a type constructor. -/
def toByte : LanguageType → UInt8
  | .value type => type.toByte
  | .anyFunc => 0x70
  | .func => 0x60
  | .emptyBlock => 0x40

/-- The type constructor of a byte. -/
def ofByte? : UInt8 → Option LanguageType
  | 0x70 => some .anyFunc
  | 0x60 => some .func
  | 0x40 => some .emptyBlock
  | other => (ValueType.ofByte? other).map .value

@[simp]
theorem ofByte?_toByte (type : LanguageType) : ofByte? type.toByte = some type := by
  rcases type with (_ | _ | _ | _) | _ | _ | _ <;> rfl

end LanguageType

/-! ### What modules share -/

/-- What an import or export names. -/
inductive ExternalKind
  | function
  | table
  | memory
  | global
  deriving DecidableEq, Repr

namespace ExternalKind

/-- The name of a kind. -/
def name : ExternalKind → String
  | .function => "function"
  | .table => "table"
  | .memory => "memory"
  | .global => "global"

/-- The kind of a name. -/
def ofName? : String → Option ExternalKind
  | "function" => some .function
  | "table" => some .table
  | "memory" => some .memory
  | "global" => some .global
  | _ => none

@[simp]
theorem ofName?_name (kind : ExternalKind) : ofName? kind.name = some kind := by
  cases kind <;> rfl

/-- The byte of a kind. -/
def toByte : ExternalKind → UInt8
  | .function => 0
  | .table => 1
  | .memory => 2
  | .global => 3

/-- The kind of a byte. -/
def ofByte? : UInt8 → Option ExternalKind
  | 0 => some .function
  | 1 => some .table
  | 2 => some .memory
  | 3 => some .global
  | _ => none

@[simp]
theorem ofByte?_toByte (kind : ExternalKind) : ofByte? kind.toByte = some kind := by
  cases kind <;> rfl

end ExternalKind

/-- The size of a table or memory at the start, and the size it may grow to. -/
structure Limits where
  initial : UInt32
  maximum : Option UInt32
  deriving DecidableEq, Repr

/-- The type of a table. -/
structure TableType where
  elementType : LanguageType
  limits : Limits
  deriving DecidableEq, Repr

/-- The type of a global variable. -/
structure GlobalType where
  contentType : ValueType
  isMutable : Bool
  deriving DecidableEq, Repr

/-- The signature of a function. Its form is a type constructor, in practice `func`. -/
structure FuncType where
  form : LanguageType
  params : List ValueType
  result : Option ValueType
  deriving DecidableEq, Repr

/-- The signature of a function that takes the parameters. -/
def FuncType.func (params : List ValueType) (result : Option ValueType) : FuncType :=
  ⟨.func, params, result⟩

end WasmMeter
