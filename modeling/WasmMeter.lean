import WasmMeter.Text.Utf8
import WasmMeter.Text.Blank
import WasmMeter.Text.FloatLiteral
import WasmMeter.Leb128.Stream
import WasmMeter.Leb128.Sink
import WasmMeter.Types
import WasmMeter.Opcode
import WasmMeter.Json.Printer
import WasmMeter.Json.Parser
import WasmMeter.Module
import WasmMeter.Binary.Module
import WasmMeter.Pipeline
import WasmMeter.Json.Module
import WasmMeter.Binary.Node
import WasmMeter.Json.Nodes
import WasmMeter.Binary.ReadScript
import WasmMeter.Binary.WriteScript
import WasmMeter.CommandLine.Arguments
import WasmMeter.CommandLine.Command
import WasmMeter.Main
import WasmMeter.Proofs.Bytes
import WasmMeter.Proofs.Leb128.Forms
import WasmMeter.Proofs.Reader
import WasmMeter.Proofs.Leb128.Reading
import WasmMeter.Proofs.Leb128.SignedReading
import WasmMeter.Proofs.Leb128.Writing
import WasmMeter.Proofs.Binary.Forms
import WasmMeter.Proofs.Text.Utf8
import WasmMeter.Proofs.Text.Words
import WasmMeter.Proofs.Binary.Decoding
import WasmMeter.Proofs.Binary.SectionDecoding
import WasmMeter.Proofs.Binary.Encoding
import WasmMeter.Proofs.Binary.Canonical
import WasmMeter.Proofs.Gas.Statement
import WasmMeter.Proofs.Gas.Outcome
import WasmMeter.Proofs.Gas.Shift
import WasmMeter.Proofs.FirstSection
import WasmMeter.Proofs.Gas.Blocks
import WasmMeter.Proofs.Gas.ExactCost
import WasmMeter.Proofs.Gas.References
import WasmMeter.Proofs.Gas.Pass
import WasmMeter.Proofs.Gas.Bodies
import WasmMeter.Proofs.Gas.Charges
import WasmMeter.Proofs.Gas.Erasure
import WasmMeter.Proofs.Gas.ExactCharges
import WasmMeter.Proofs.Gas.Payments
import WasmMeter.Proofs.Gas.Walks
import WasmMeter.Proofs.Binary.Regions
import WasmMeter.Proofs.Binary.Grammar
import WasmMeter.Proofs.Binary.WrittenForms
import WasmMeter.Proofs.Binary.RoundTrip
import WasmMeter.Proofs.Binary.Refusals
import WasmMeter.Proofs.Binary.Appending
import WasmMeter.Proofs.Binary.Faithful
import WasmMeter.Proofs.Gas.Correspondence
import WasmMeter.Proofs.Gas.FunctionSpace
import WasmMeter.Proofs.Gas.Coverage
import WasmMeter.Proofs.Gas.FirstCause
import WasmMeter.Proofs.Pipeline
import WasmMeter.Proofs.Binary.Concatenation
import WasmMeter.Proofs.Binary.Truncation
import WasmMeter.Proofs.Binary.Lookahead
import WasmMeter.Proofs.Binary.Size
import WasmMeter.Proofs.Gas.Histories
import WasmMeter.Proofs.Gas.CustomSections
import WasmMeter.Proofs.Gas.Frame
import WasmMeter.Proofs.Remetering
import WasmMeter.Proofs.Text.FloatValue
import WasmMeter.Proofs.Json.Tokens
import WasmMeter.Proofs.Json.Spelling
import WasmMeter.Proofs.Json.Parsing
import WasmMeter.Proofs.Json.Forms
import WasmMeter.Proofs.Json.Costs
import WasmMeter.Proofs.Json.RoundTrip
import WasmMeter.Proofs.Listing.Grammar
import WasmMeter.Proofs.Listing.Reading
import WasmMeter.Proofs.Listing.BinaryForm
import WasmMeter.Proofs.Leb128.Streams
import WasmMeter.Proofs.Binary.ReadScripts
import WasmMeter.Proofs.Gas.Prices
import WasmMeter.Proofs.Gas.FlatCosts
import WasmMeter.Proofs.Gas.NearestCharges
import WasmMeter.Proofs.SectionHistory
