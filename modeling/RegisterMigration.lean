import RegisterMigration.AddressSpace
import RegisterMigration.Binary
import RegisterMigration.BitRange
import RegisterMigration.Command.Arguments
import RegisterMigration.Command.Basic
import RegisterMigration.Command.CarryCompilerSpec
import RegisterMigration.Command.Check
import RegisterMigration.Command.ConvertValue
import RegisterMigration.Command.Invocation
import RegisterMigration.Command.LocateRegister
import RegisterMigration.Command.Validate
import RegisterMigration.CompilerSpec
import RegisterMigration.Decimal.Binary64
import RegisterMigration.Decimal.Shortest
import RegisterMigration.Definition.Basic
import RegisterMigration.Definition.Canonical
import RegisterMigration.Definition.Document
import RegisterMigration.Definition.Issue
import RegisterMigration.Definition.Printer
import RegisterMigration.Hash.Sha256
import RegisterMigration.Json.Basic
import RegisterMigration.Json.Compact
import RegisterMigration.Json.Pretty
import RegisterMigration.Language.Basic
import RegisterMigration.Language.Hierarchy
import RegisterMigration.Language.Source
import RegisterMigration.Log
import RegisterMigration.Main
import RegisterMigration.Migration.Cache
import RegisterMigration.Migration.CompilerSpecs
import RegisterMigration.Migration.ContextMap
import RegisterMigration.Migration.Correspondence
import RegisterMigration.Migration.Migrator
import RegisterMigration.Migration.Obstacle
import RegisterMigration.Migration.Report
import RegisterMigration.Overflow
import RegisterMigration.PartialValue
import RegisterMigration.Register
import RegisterMigration.RegisterId
import RegisterMigration.Text.Blank
import RegisterMigration.Text.Escaped
import RegisterMigration.Text.HexBytes
import RegisterMigration.Text.Numeral
import RegisterMigration.Text.Printable
import RegisterMigration.Toml.DateTime
import RegisterMigration.Toml.Decode
import RegisterMigration.Toml.Document
import RegisterMigration.Toml.Line
import RegisterMigration.Toml.Node
import RegisterMigration.Toml.Number
import RegisterMigration.Toml.Quoted
import RegisterMigration.Toml.Spelling
import RegisterMigration.Toml.Value
import RegisterMigration.Version
import RegisterMigration.Proofs.Definition.WellFormed
import RegisterMigration.Proofs.Language.Table
import RegisterMigration.Proofs.BitRange
import RegisterMigration.Proofs.Migration.Counterpart
import RegisterMigration.Proofs.Migration.SharedFields
import RegisterMigration.Proofs.Migration.Feasibility
import RegisterMigration.Proofs.Migration.Values
import RegisterMigration.Proofs.Language.Containment
import RegisterMigration.Proofs.Language.Widening
import RegisterMigration.Proofs.Migration.KnownBits
import RegisterMigration.Proofs.Language.Forest
import RegisterMigration.Proofs.Migration.ContextValues
import RegisterMigration.Proofs.Definition.Loading
import RegisterMigration.Proofs.PartialValue.Wiring
import RegisterMigration.Proofs.Migration.Composition
import RegisterMigration.Proofs.Migration.Merging
import RegisterMigration.Proofs.Migration.Narrowing
import RegisterMigration.Proofs.Migration.Ancestry
import RegisterMigration.Proofs.Migration.CacheHistory
import RegisterMigration.Proofs.Text.Numeral
import RegisterMigration.Proofs.Json.Compact
import RegisterMigration.Proofs.Version
import RegisterMigration.Proofs.Definition.Canonical
import RegisterMigration.Proofs.Migration.CacheTransparency
import RegisterMigration.Proofs.Toml.Quoted
import RegisterMigration.Proofs.Toml.Spelling
import RegisterMigration.Proofs.Toml.Document
import RegisterMigration.Proofs.Definition.Printer
import RegisterMigration.Proofs.Toml.Integers
import RegisterMigration.Proofs.Definition.RoundTrip
import RegisterMigration.Proofs.PartialValue.Bytes
import RegisterMigration.Proofs.Language.MemoryImage
import RegisterMigration.Proofs.Definition.CanonicalText
import RegisterMigration.Proofs.Migration.Identity
import RegisterMigration.Proofs.Migration.AddedFields
import RegisterMigration.PackedValue
import RegisterMigration.Proofs.PackedValue.ByteString
import RegisterMigration.Proofs.PackedValue.Canonical
import RegisterMigration.Proofs.PackedValue.Operations
import RegisterMigration.Proofs.PackedValue.Construction
import RegisterMigration.Proofs.PartialValue.Positions
import RegisterMigration.Proofs.PartialValue.Serialized
import RegisterMigration.Proofs.PartialValue.Combining
import RegisterMigration.Proofs.PartialValue.Ranges
import RegisterMigration.Proofs.Language.Shifts
import RegisterMigration.Proofs.Language.SideBySide
import RegisterMigration.Proofs.Migration.Bijection
import RegisterMigration.Proofs.Migration.FieldPartition
import RegisterMigration.Proofs.Binary
import RegisterMigration.Proofs.Text.HexBytes
import RegisterMigration.Proofs.PartialValue.Pattern
import RegisterMigration.Proofs.Command.ConvertValue
import RegisterMigration.Proofs.Text.Number
import RegisterMigration.Proofs.Migration.Lookup
