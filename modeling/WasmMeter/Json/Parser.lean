import WasmMeter.Json
import WasmMeter.Json.Magnitude
import WasmMeter.Reader
import WasmMeter.Text.Utf8

/-!
# Reading JSON

`Json.parse?` accepts exactly the JSON texts, blanks around the value included. A text is a list of
characters in which `none` stands for bytes that encode none; these may stand in strings only.

Some values are texts of the grammar, and still nothing can be done with them but skip them. They
are read as `Json.unusable`:

- a string with an escape for half of a surrogate pair, or with bytes that encode no character, and
  an object with such a name;
- a number whose `Magnitude` is infinite;
- an array or object that is nested more than `maxDepth` deep.
-/

set_option autoImplicit false

namespace WasmMeter.Json

/-- The characters of a text; `none` for what encodes no character. -/
abbrev Source := List (Option Char)

/-- Reads from a text; a text outside the grammar fails, and nothing is told about it. -/
abbrev Parser := Reader (Option Char) Unit

/-- The deepest nesting of arrays and objects that can be read. -/
def maxDepth : Nat := 127

/-! ### Blanks and marks -/

/-- Whether a character may stand between values. -/
def isGap : Option Char → Bool
  | some c => c == ' ' || c == '\t' || c == '\n' || c == '\r'
  | none => false

/-- Skips what may stand between values. -/
def gap : Parser Unit := fun input ↦ .ok () (input.dropWhile isGap)

/-- Takes a character if it comes next, and tells whether it does. -/
def accept (c : Char) : Parser Bool
  | some d :: rest => if d = c then .ok true rest else .ok false (some d :: rest)
  | input => .ok false input

/-- Takes a character that has to come next. -/
def expect (c : Char) : Parser Unit := do
  if ← accept c then pure () else Reader.fail ()

/-- Takes the characters of a word that has to come next. -/
def expectWord : List Char → Parser Unit
  | [] => pure ()
  | c :: later => do
    expect c
    expectWord later

/-! ### Strings -/

/-- One part of a string: a character, a unit of UTF-16 that is given by its number, or bytes that
encode no character. -/
inductive StringPart
  | char (c : Char)
  | unit (code : Nat)
  | undecodable
  deriving DecidableEq, Repr

/-- The value of a hexadecimal digit in either case. -/
def hexValue? : Option Char → Option Nat
  | some c =>
    if '0' ≤ c ∧ c ≤ '9' then some (c.toNat - 48)
    else if 'a' ≤ c ∧ c ≤ 'f' then some (c.toNat - 87)
    else if 'A' ≤ c ∧ c ≤ 'F' then some (c.toNat - 55)
    else none
  | none => none

/-- The number that four hexadecimal digits spell. -/
def unit? (a b c d : Option Char) : Option Nat := do
  let a ← hexValue? a
  let b ← hexValue? b
  let c ← hexValue? c
  let d ← hexValue? d
  pure (a * 4096 + b * 256 + c * 16 + d)

/-- The character that an escape of one letter stands for. -/
def letterEscape? : Char → Option Char
  | '"' => some '"'
  | '\\' => some '\\'
  | '/' => some '/'
  | 'b' => some '\x08'
  | 'f' => some '\x0c'
  | 'n' => some '\n'
  | 'r' => some '\r'
  | 't' => some '\t'
  | _ => none

/-- The parts of a string behind its opening quote, and what follows the closing one. -/
def stringParts? : Source → Option (List StringPart × Source)
  | [] => none
  | some '"' :: rest => some ([], rest)
  | some '\\' :: some 'u' :: a :: b :: c :: d :: rest => do
    let code ← unit? a b c d
    let (parts, left) ← stringParts? rest
    pure (.unit code :: parts, left)
  | some '\\' :: some letter :: rest => do
    let c ← letterEscape? letter
    let (parts, left) ← stringParts? rest
    pure (.char c :: parts, left)
  | some c :: rest => do
    guard (0x20 ≤ c.toNat ∧ c ≠ '\\')
    let (parts, left) ← stringParts? rest
    pure (.char c :: parts, left)
  | none :: rest => do
    let (parts, left) ← stringParts? rest
    pure (.undecodable :: parts, left)

/-- Whether a unit of UTF-16 is the first half of a pair. -/
def isHighSurrogate (code : Nat) : Bool := 0xD800 ≤ code && code < 0xDC00

/-- Whether a unit of UTF-16 is the second half of a pair. -/
def isLowSurrogate (code : Nat) : Bool := 0xDC00 ≤ code && code < 0xE000

/-- The characters of a string, if every part belongs to one. -/
def assemble? : List StringPart → Option (List Char)
  | [] => some []
  | .char c :: later => (c :: ·) <$> assemble? later
  | .unit high :: .unit low :: later =>
    if isHighSurrogate high then
      if isLowSurrogate low then
        (Char.ofNat (0x10000 + (high - 0xD800) * 0x400 + (low - 0xDC00)) :: ·) <$> assemble? later
      else none
    else if isLowSurrogate high then none
    else (Char.ofNat high :: ·) <$> assemble? (.unit low :: later)
  | .unit code :: later =>
    if isHighSurrogate code || isLowSurrogate code then none
    else (Char.ofNat code :: ·) <$> assemble? later
  | .undecodable :: _ => none

/-- A string from its opening quote on, or `none` where it cannot be read. -/
def stringBody : Parser (Option String) := fun input ↦
  match input with
  | some '"' :: rest =>
    match stringParts? rest with
    | some (parts, left) => .ok ((assemble? parts).map String.ofList) left
    | none => .error () input
  | _ => .error () input

/-! ### Numbers -/

/-- Whether a character is a decimal digit. -/
def isDigit : Option Char → Bool
  | some c => FloatLiteral.isDigit c
  | none => false

/-- Takes the decimal digits that come next. -/
def digitRun : Parser (List Char) := fun input ↦
  let (run, rest) := input.span isDigit
  .ok (run.filterMap id) rest

/-- Takes at least one decimal digit. -/
def someDigits : Parser (List Char) := do
  match ← digitRun with
  | [] => Reader.fail ()
  | run => pure run

/-- The digits behind the point of a number, none where it has no point. -/
def fractionPart : Parser (List Char) := do
  if ← accept '.' then someDigits else pure []

/-- The exponent of a number, if it has one. -/
def exponentPart : Parser (Option Int) := do
  let small ← accept 'e'
  let marked ← if small then pure true else accept 'E'
  if marked then
    let negative ← accept '-'
    let _ ← if negative then pure true else accept '+'
    let magnitude := Int.ofNat ((Numeral.natural? (← someDigits)).getD 0)
    pure (some (if negative then -magnitude else magnitude))
  else
    pure none

/-- A number. Only digits with a minus sign or none make an integer, and `-0` does not. -/
def number : Parser Json := do
  let negative ← accept '-'
  let whole ← someDigits
  if whole.length > 1 ∧ whole.head? = some '0' then
    Reader.fail ()
  else
    let fraction ← fractionPart
    let exponent ← exponentPart
    let natural := (Numeral.natural? whole).getD 0
    if (Magnitude.ofParts whole fraction (exponent.getD 0)).isInfinite then
      pure .unusable
    else if fraction = [] ∧ exponent = none ∧ ¬(negative ∧ natural = 0) then
      pure (.integer (if negative then -Int.ofNat natural else Int.ofNat natural))
    else
      let sign := if negative then ['-'] else []
      let point := if fraction = [] then [] else '.' :: fraction
      let power := exponent.elim [] fun e ↦ 'e' :: Numeral.ofInt e
      pure (.real (String.ofList (sign ++ whole ++ point ++ power)))

/-! ### Values -/

/-- An array or object at a depth, if that is not too deep. -/
def atDepth (depth : Nat) (j : Json) : Json := if depth ≤ maxDepth then j else .unusable

/-- An object of the members, if all names can be read. -/
def ofMembers (members : List (Option String × Json)) : Json :=
  match members.mapM fun (name, j) ↦ name.map (·, j) with
  | some members => .object members
  | none => .unusable

mutual

/-- A value inside `depth` arrays and objects. The bound limits the depth of the recursion. -/
def valueWithin : (bound depth : Nat) → Parser Json
  | 0, _ => Reader.fail ()
  | bound + 1, depth => do
    gap
    match ← Reader.peek with
    | some (some '"') =>
      match ← stringBody with
      | some text => pure (.string text)
      | none => pure .unusable
    | some (some '[') =>
      expect '['
      gap
      let elements ← if ← accept ']' then pure [] else elementsWithin bound (depth + 1)
      pure (atDepth (depth + 1) (.array elements))
    | some (some '\x7b') =>
      expect '\x7b'
      gap
      let members ← if ← accept '\x7d' then pure [] else membersWithin bound (depth + 1)
      pure (atDepth (depth + 1) (ofMembers members))
    | some (some 't') =>
      expectWord "true".toList
      pure (.bool true)
    | some (some 'f') =>
      expectWord "false".toList
      pure (.bool false)
    | some (some 'n') =>
      expectWord "null".toList
      pure .null
    | _ => number

/-- The elements of an array and its closing bracket. -/
def elementsWithin : (bound depth : Nat) → Parser (List Json)
  | 0, _ => Reader.fail ()
  | bound + 1, depth => do
    let first ← valueWithin bound depth
    gap
    if ← accept ',' then
      let later ← elementsWithin bound depth
      pure (first :: later)
    else
      expect ']'
      pure [first]

/-- The members of an object and its closing brace. -/
def membersWithin : (bound depth : Nat) → Parser (List (Option String × Json))
  | 0, _ => Reader.fail ()
  | bound + 1, depth => do
    gap
    let name ← stringBody
    gap
    expect ':'
    let first ← valueWithin bound depth
    gap
    if ← accept ',' then
      let later ← membersWithin bound depth
      pure ((name, first) :: later)
    else
      expect '\x7d'
      pure [(name, first)]

end

/-- A value with nothing but blanks around it. Each level of the recursion follows a character or
another level that does, so twice the length of the text bounds its depth. -/
def document : Parser Json := fun input ↦
  match valueWithin (2 * input.length + 2) 0 input with
  | .ok j rest => if (rest.dropWhile isGap).isEmpty then .ok j [] else .error () rest
  | .error e rest => .error e rest

/-- The value that a list of characters spells. -/
def parseSource? (source : Source) : Option Json := (Reader.value (document source)).toOption

/-- The value that a text spells. -/
def parse? (text : String) : Option Json := parseSource? (text.toList.map some)

/-- The value that a byte string spells. -/
def parseBytes? (bytes : Bytes) : Option Json := parseSource? (Utf8.decodePartial bytes)

end WasmMeter.Json
