import AddressProtocols.Main
import AddressProtocols.Fuzz.Campaign
import AddressProtocols.Json.OfValue
import AddressProtocols.Proofs.Descriptor
import AddressProtocols.Proofs.Table
import AddressProtocols.Proofs.Registry.Consistent
import AddressProtocols.Proofs.Registry.Session
import AddressProtocols.Proofs.Registry.Growth
import AddressProtocols.Proofs.Registry.Batch
import AddressProtocols.Proofs.Registry.Tags
import AddressProtocols.Proofs.Varint.Decoding
import AddressProtocols.Proofs.Varint.Canonical
import AddressProtocols.Proofs.Varint.RoundTrip
import AddressProtocols.Proofs.Varint.Sequence
import AddressProtocols.Proofs.Varint.Streaming
import AddressProtocols.Proofs.Registry.Order
import AddressProtocols.Proofs.Json.Fold
import AddressProtocols.Proofs.Json.Integer
import AddressProtocols.Proofs.Json.String
import AddressProtocols.Proofs.Registry.Path
import AddressProtocols.Proofs.Json.Strict
import AddressProtocols.Proofs.Json.Written
import AddressProtocols.Proofs.Table.Format
import AddressProtocols.Proofs.Registry.Export
import AddressProtocols.Proofs.Json.Filter
import AddressProtocols.Proofs.Table.Document
import AddressProtocols.Proofs.Fuzz.Check
import AddressProtocols.Proofs.Fuzz.Race
import AddressProtocols.Proofs.Fuzz.Campaign
import AddressProtocols.Proofs.Fuzz.Detection
import AddressProtocols.Proofs.CommandLine.Reading
import AddressProtocols.Proofs.CommandLine.Invocation
import AddressProtocols.Proofs.CommandLine.Running
import AddressProtocols.Proofs.CommandLine.Breaking
import AddressProtocols.Proofs.Text.Numeral
import AddressProtocols.Proofs.CommandLine.Lookup
import AddressProtocols.Proofs.CommandLine.Tables
import AddressProtocols.Proofs.Text.Hex
import AddressProtocols.Proofs.CommandLine.Codec
import AddressProtocols.Proofs.Registry.Collision
import AddressProtocols.Proofs.Registry.Scan
import AddressProtocols.Proofs.Text.Words
import AddressProtocols.Proofs.Text.Order
import AddressProtocols.Proofs.CommandLine.Rows
import AddressProtocols.Proofs.Registry.Transcoders
import AddressProtocols.Proofs.Descriptor.Construction
import AddressProtocols.Proofs.Registry.Forged
import AddressProtocols.Proofs.Table.Entry
import AddressProtocols.Proofs.Json.Guard
import AddressProtocols.Proofs.Fuzz.Inputs
import AddressProtocols.Proofs.Precedence
import AddressProtocols.Proofs.Json.Printable
