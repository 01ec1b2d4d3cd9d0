/-!
# JSON values

The tree of a JSON text. Members of an object keep their order and may repeat a name. Integers are
kept exactly. Two leaves stand for what no field of a module takes: `real` is a number that is not
written as an integer, and `unusable` is a value that may be skipped but not read, such as a string
with half of a surrogate pair.

`Json.isUsable` says that no part of a value is unusable.
-/

set_option autoImplicit false

namespace WasmMeter

/-- A JSON value. -/
inductive Json
  | null
  | bool (value : Bool)
  | integer (value : Int)
  | real (literal : String)
  | string (value : String)
  | array (elements : List Json)
  | object (members : List (String × Json))
  | unusable
  deriving Repr, BEq, Inhabited

namespace Json

mutual

/-- Whether a value and all its parts can be read. -/
def isUsable : Json → Bool
  | .unusable => false
  | .array elements => areUsable elements
  | .object members => membersAreUsable members
  | _ => true

/-- Whether all values of a list can be read. -/
def areUsable : List Json → Bool
  | [] => true
  | j :: later => j.isUsable && areUsable later

/-- Whether the values of all members can be read. -/
def membersAreUsable : List (String × Json) → Bool
  | [] => true
  | m :: later => memberIsUsable m && membersAreUsable later

/-- Whether the value of a member can be read. -/
def memberIsUsable : String × Json → Bool
  | (_, j) => j.isUsable

end

/-- The value of the first member of a name. -/
def member? (name : String) : Json → Option Json
  | .object members => members.lookup name
  | _ => none

end Json

end WasmMeter
