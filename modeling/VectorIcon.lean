import VectorIcon.Color
import VectorIcon.Color.Reading
import VectorIcon.CommandLine.Arguments
import VectorIcon.CommandLine.Directory
import VectorIcon.CommandLine.Program
import VectorIcon.CommandLine.Run
import VectorIcon.Conversion.Basic
import VectorIcon.Conversion.Options
import VectorIcon.Drawing.Attribute
import VectorIcon.Drawing.Basic
import VectorIcon.Drawing.Json
import VectorIcon.Drawing.Markup
import VectorIcon.Drawing.Walk
import VectorIcon.Element.Basic
import VectorIcon.Element.Json
import VectorIcon.Element.Outline
import VectorIcon.Error
import VectorIcon.Exclusion
import VectorIcon.Exclusion.Json
import VectorIcon.Geometry
import VectorIcon.Icon.Buffer
import VectorIcon.Icon.Color
import VectorIcon.Icon.Decoder
import VectorIcon.Icon.Encoder
import VectorIcon.Icon.Instruction
import VectorIcon.Icon.Number
import VectorIcon.Icon.Pen
import VectorIcon.Icon.Plot
import VectorIcon.Icon.Reader
import VectorIcon.Icon.Reference
import VectorIcon.Icon.Register
import VectorIcon.Icon.Writer
import VectorIcon.Json.Decode
import VectorIcon.Json.Source
import VectorIcon.Json.Text
import VectorIcon.Json.Token
import VectorIcon.Json.Value
import VectorIcon.Main
import VectorIcon.Number.Compact
import VectorIcon.Number.Decimal
import VectorIcon.Number.Library
import VectorIcon.Number.Notation
import VectorIcon.Number.Rounding
import VectorIcon.Number.Scalar
import VectorIcon.Number.Shortest
import VectorIcon.Path.Command
import VectorIcon.Path.Format
import VectorIcon.Path.Parser
import VectorIcon.Path.Segment
import VectorIcon.Path.Tape
import VectorIcon.Proofs.Bits
import VectorIcon.Proofs.Color.Text
import VectorIcon.Proofs.CommandLine.Arguments
import VectorIcon.Proofs.CommandLine.Effects
import VectorIcon.Proofs.CommandLine.Options
import VectorIcon.Proofs.CommandLine.Size
import VectorIcon.Proofs.Conversion.Finite
import VectorIcon.Proofs.Exclusion.Decision
import VectorIcon.Proofs.Icon.Accuracy
import VectorIcon.Proofs.Icon.Angle
import VectorIcon.Proofs.Icon.Color
import VectorIcon.Proofs.Icon.Composition
import VectorIcon.Proofs.Icon.Drift
import VectorIcon.Proofs.Icon.Finite
import VectorIcon.Proofs.Icon.Fraction
import VectorIcon.Proofs.Icon.InPlace
import VectorIcon.Proofs.Icon.Layout
import VectorIcon.Proofs.Icon.Lockstep
import VectorIcon.Proofs.Icon.Lossless
import VectorIcon.Proofs.Icon.Notation
import VectorIcon.Proofs.Icon.Numbers
import VectorIcon.Proofs.Icon.Outcome
import VectorIcon.Proofs.Icon.Quantize
import VectorIcon.Proofs.Icon.Range
import VectorIcon.Proofs.Icon.Registers
import VectorIcon.Proofs.Icon.RoundTrip
import VectorIcon.Proofs.Icon.Rounding
import VectorIcon.Proofs.Icon.Runs
import VectorIcon.Proofs.Icon.Simulation
import VectorIcon.Proofs.Icon.Tolerance
import VectorIcon.Proofs.Icon.Truncation
import VectorIcon.Proofs.Icon.Tracking
import VectorIcon.Proofs.Icon.Width
import VectorIcon.Proofs.Icon.Merging
import VectorIcon.Proofs.Icon.Choice
import VectorIcon.Proofs.Icon.Wire
import VectorIcon.Proofs.Lists
import VectorIcon.Proofs.Number.Agreement
import VectorIcon.Proofs.Number.Arithmetic
import VectorIcon.Proofs.Number.Conversion
import VectorIcon.Proofs.Number.Decimal
import VectorIcon.Proofs.Number.Digits
import VectorIcon.Proofs.Number.Library
import VectorIcon.Proofs.Number.NearMiss
import VectorIcon.Proofs.Number.Nearest
import VectorIcon.Proofs.Number.Numeral
import VectorIcon.Proofs.Number.Order
import VectorIcon.Proofs.Number.Text
import VectorIcon.Proofs.Number.Threshold
import VectorIcon.Proofs.Number.Unpacked
import VectorIcon.Proofs.Path.Commands
import VectorIcon.Proofs.Path.Concatenation
import VectorIcon.Proofs.Path.Grammar
import VectorIcon.Proofs.Path.Fault
import VectorIcon.Proofs.Path.Progress
import VectorIcon.Proofs.Path.Refusal
import VectorIcon.Proofs.Path.Resolution
import VectorIcon.Proofs.Path.RoundTrip
import VectorIcon.Proofs.Path.Tape
import VectorIcon.Proofs.Text.Utf8
import VectorIcon.Scan
import VectorIcon.Text.Blank
import VectorIcon.Text.Combining
import VectorIcon.Text.Hexadecimal
import VectorIcon.Text.Quoted
import VectorIcon.Text.Range
import VectorIcon.Text.Unprintable
import VectorIcon.Text.Utf8
import VectorIcon.Xml.Character
import VectorIcon.Xml.Document
import VectorIcon.Xml.Reference
import VectorIcon.Xml.Token
import VectorIcon.Proofs.Drawing.Walk
import VectorIcon.Proofs.Drawing.Exclusion
import VectorIcon.Proofs.Drawing.Number
import VectorIcon.Proofs.Icon.Header
import VectorIcon.Proofs.Json.Assembly
import VectorIcon.Proofs.Json.Layout
import VectorIcon.Proofs.Json.Number
import VectorIcon.Proofs.Element.Json
import VectorIcon.Proofs.Element.Outline
import VectorIcon.Proofs.Conversion.Json
