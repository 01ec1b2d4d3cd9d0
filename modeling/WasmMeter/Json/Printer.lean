import WasmMeter.Json
import WasmMeter.Text.Numeral

/-!
# Printed JSON

`Json.compact` prints a value without blanks and `Json.pretty` with one element or member a line,
two blanks of indentation a level and a blank behind the colon of a member; containers without
content stay closed. In strings the quote, the backslash and the control characters are escaped,
the latter by a letter where they have one, and all other characters stand for themselves.
-/

set_option autoImplicit false

namespace WasmMeter.Json

/-! ### Strings -/

/-- A hexadecimal digit, in lower case. -/
def hexDigit (value : Nat) : Char :=
  Char.ofNat (if value < 10 then 48 + value else 87 + value)

/-- A character as it stands inside a string. -/
def escape (c : Char) : List Char :=
  match c with
  | '"' => ['\\', '"']
  | '\\' => ['\\', '\\']
  | '\x08' => ['\\', 'b']
  | '\x0c' => ['\\', 'f']
  | '\n' => ['\\', 'n']
  | '\r' => ['\\', 'r']
  | '\t' => ['\\', 't']
  | _ =>
    if c.toNat < 0x20 then
      ['\\', 'u', '0', '0', hexDigit (c.toNat / 16), hexDigit (c.toNat % 16)]
    else [c]

/-- A string between its quotes. -/
def quoted (text : String) : List Char := '"' :: text.toList.flatMap escape ++ ['"']

/-! ### Values -/

/-- A value without parts. -/
def leaf : Json → List Char
  | .bool true => "true".toList
  | .bool false => "false".toList
  | .integer value => Numeral.ofInt value
  | .real literal => literal.toList
  | .string value => quoted value
  | _ => "null".toList

mutual

/-- A value without blanks. -/
def compact : Json → List Char
  | .array elements => '[' :: compactElements elements ++ [']']
  | .object members => '\x7b' :: compactMembers members ++ ['\x7d']
  | j => leaf j

/-- Values between commas. -/
def compactElements : List Json → List Char
  | [] => []
  | [j] => compact j
  | j :: later => compact j ++ ',' :: compactElements later

/-- Members between commas. -/
def compactMembers : List (String × Json) → List Char
  | [] => []
  | [m] => compactMember m
  | m :: later => compactMember m ++ ',' :: compactMembers later

/-- A member. -/
def compactMember : String × Json → List Char
  | (name, j) => quoted name ++ ':' :: compact j

end

/-- The start of a line at a level of indentation. -/
def newLine (level : Nat) : List Char := '\n' :: List.replicate (2 * level) ' '

mutual

/-- A value whose own line is indented to a level. -/
def prettyAt (level : Nat) : Json → List Char
  | .array [] => ['[', ']']
  | .array elements => '[' :: prettyElements (level + 1) elements ++ newLine level ++ [']']
  | .object [] => ['\x7b', '\x7d']
  | .object members => '\x7b' :: prettyMembers (level + 1) members ++ newLine level ++ ['\x7d']
  | j => leaf j

/-- Values on lines of their own. -/
def prettyElements (level : Nat) : List Json → List Char
  | [] => []
  | [j] => newLine level ++ prettyAt level j
  | j :: later => newLine level ++ prettyAt level j ++ ',' :: prettyElements level later

/-- Members on lines of their own. -/
def prettyMembers (level : Nat) : List (String × Json) → List Char
  | [] => []
  | [m] => newLine level ++ prettyMember level m
  | m :: later => newLine level ++ prettyMember level m ++ ',' :: prettyMembers level later

/-- A member. -/
def prettyMember (level : Nat) : String × Json → List Char
  | (name, j) => quoted name ++ ':' :: ' ' :: prettyAt level j

end

/-- A value without blanks. -/
def printCompact (j : Json) : String := String.ofList (compact j)

/-- A value with its structure shown by lines and indentation. -/
def printPretty (j : Json) : String := String.ofList (prettyAt 0 j)

end WasmMeter.Json
