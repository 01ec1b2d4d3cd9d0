import WasmMeter.Binary.Module
import WasmMeter.Gas.Metering

/-!
# Metering of binary modules

A binary module is decoded, metered and encoded again. The first of these that fails tells why.

The room that is made for the metered module in advance is half as much again as the bytes that were
read take. These are in memory, so there can be so much room, and it is left out here.
-/

set_option autoImplicit false

namespace WasmMeter

/-- Why a binary module cannot be metered. -/
inductive PipelineError
  | decode (error : DecodeError)
  | metering (error : MeteringError)
  | encode (error : EncodeError)
  deriving DecidableEq, Repr

namespace PipelineError

/-- The error in words. -/
def message : PipelineError → String
  | .decode error => "failed to decode module: " ++ error.message
  | .metering error => "failed to meter module: " ++ error.message
  | .encode error => "failed to encode module: " ++ error.message

/-- What lies behind the error, in words, from the nearest cause to the first one. -/
def causes : PipelineError → List String
  | .decode error => error.message :: error.cause?.toList
  | .metering error => error.message :: error.cause?.toList
  | .encode error => [error.message]

end PipelineError

/-- The bytes of the metered module. -/
def meterBytes (bytes : Bytes) (options : MeterOptions) : Except PipelineError Bytes := do
  let m ← (Module.decode bytes).mapError .decode
  let metered ← (m.meter options).mapError .metering
  (metered.encoder.run .empty).mapError .encode

end WasmMeter
