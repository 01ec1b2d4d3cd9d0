import WasmMeter.Json
import WasmMeter.Bytes

/-!
# JSON forms

A type has a JSON form (`JsonForm`) when its values can be turned into JSON and read back from it.
Reading is more generous than writing:

- a record is an object of its fields, in any order and with unknown members, which are not looked
  at; no field may repeat. A record may also be an array of its fields in order, where the last
  ones may be left out if they can be missing (`record?`);
- a name from a fixed list is a string, and may also be an object that has it as its one member,
  with the value `null` (`named?`);
- a value of one of several kinds is an object whose one member is named for the kind (`variant?`).
-/

set_option autoImplicit false

namespace WasmMeter

/-- The values of a type as JSON. -/
class JsonForm (α : Type) where
  /-- Writes a value. -/
  toJson : α → Json
  /-- Reads a value. -/
  ofJson? : Json → Option α

namespace JsonForm

/-! ### Numbers, texts and lists -/

/-- The integer of a JSON number, if it lies between two bounds. -/
def integer? (low high : Int) : Json → Option Int
  | .integer value => if low ≤ value ∧ value ≤ high then some value else none
  | _ => none

/-- The natural number of a JSON number, if it lies below a size. -/
def natural? (size : Nat) : Json → Option Nat
  | .integer (.ofNat value) => if value < size then some value else none
  | _ => none

instance : JsonForm UInt8 where
  toJson n := .integer n.toNat
  ofJson? j := (natural? UInt8.size j).map UInt8.ofNat

instance : JsonForm UInt32 where
  toJson n := .integer n.toNat
  ofJson? j := (natural? UInt32.size j).map UInt32.ofNat

instance : JsonForm UInt64 where
  toJson n := .integer n.toNat
  ofJson? j := (natural? UInt64.size j).map UInt64.ofNat

instance : JsonForm Int32 where
  toJson i := .integer i.toInt
  ofJson? j := (integer? Int32.minValue.toInt Int32.maxValue.toInt j).map Int32.ofInt

instance : JsonForm Int64 where
  toJson i := .integer i.toInt
  ofJson? j := (integer? Int64.minValue.toInt Int64.maxValue.toInt j).map Int64.ofInt

instance : JsonForm Bool where
  toJson b := .bool b
  ofJson?
    | .bool b => some b
    | _ => none

instance : JsonForm String where
  toJson s := .string s
  ofJson?
    | .string s => some s
    | _ => none

instance {α : Type} [JsonForm α] : JsonForm (List α) where
  toJson as := .array (as.map toJson)
  ofJson?
    | .array elements => elements.mapM ofJson?
    | _ => none

instance {n : Nat} : JsonForm (Vector UInt8 n) where
  toJson word := toJson word.toList
  ofJson? j := do Bytes.toWord? n (← ofJson? j)

/-! ### Names and kinds -/

/-- A name that stands for a value. -/
def named? {α : Type} (ofName? : String → Option α) : Json → Option α
  | .string name => ofName? name
  | .object [(name, .null)] => ofName? name
  | _ => none

/-- The value of a kind. -/
def variant (kind : String) (j : Json) : Json := .object [(kind, j)]

/-- The kind of a value, and the value. -/
def variant? : Json → Option (String × Json)
  | .object [member] => some member
  | _ => none

/-! ### Records -/

/-- The fields of a record that are given, by name. -/
def record? (fields : List String) : Json → Option (List (String × Json))
  | .object members =>
    let known := members.filter fun m ↦ fields.contains m.1
    if (known.map (·.1)).Nodup then some known else none
  | .array elements => if elements.length ≤ fields.length then some (fields.zip elements) else none
  | _ => none

/-- A field that has to be given. -/
def required? {α : Type} [JsonForm α] (given : List (String × Json)) (field : String) :
    Option α :=
  (given.lookup field).bind ofJson?

/-- A field that may be missing or `null`. -/
def optional? {α : Type} [JsonForm α] (given : List (String × Json)) (field : String) :
    Option (Option α) :=
  match given.lookup field with
  | none => some none
  | some .null => some none
  | some j => (ofJson? j).map some

/-- A field that has a value where it is missing. -/
def defaulted? {α : Type} [JsonForm α] (default : α) (given : List (String × Json))
    (field : String) : Option α :=
  match given.lookup field with
  | none => some default
  | some j => ofJson? j

/-- The member of a field that may be missing. -/
def optionalMember {α : Type} [JsonForm α] (field : String) (value : Option α) :
    List (String × Json) :=
  (value.map fun a ↦ (field, toJson a)).toList

end JsonForm

end WasmMeter
