import LogicalTable.Binary64.Basic
import LogicalTable.Binary64.Rounding
import LogicalTable.Binary64.Shortest
import LogicalTable.Binary64.Text
import LogicalTable.Calendar.Date
import LogicalTable.Calendar.Time
import LogicalTable.Columnar.ArrayType
import LogicalTable.Columnar.Build
import LogicalTable.Columnar.Cell
import LogicalTable.Columnar.Export
import LogicalTable.Columnar.Import
import LogicalTable.Columnar.Metadata
import LogicalTable.Columnar.Storage
import LogicalTable.Columnar.Tags
import LogicalTable.CommandLine.Arguments
import LogicalTable.CommandLine.Program
import LogicalTable.Container.Basic
import LogicalTable.Container.Source
import LogicalTable.DataType.Basic
import LogicalTable.DataType.Converter
import LogicalTable.Dictionary.Basic
import LogicalTable.Dictionary.Encode
import LogicalTable.Dictionary.KeySource
import LogicalTable.Error
import LogicalTable.Exchange.Document
import LogicalTable.Exchange.Export
import LogicalTable.Exchange.Import
import LogicalTable.Exchange.Reader
import LogicalTable.Geometry.Basic
import LogicalTable.Geometry.Wkb
import LogicalTable.Geometry.WkbReader
import LogicalTable.Geometry.Wkt
import LogicalTable.Geometry.WktReader
import LogicalTable.Json.Basic
import LogicalTable.Json.Parser
import LogicalTable.Json.Printer
import LogicalTable.LogicalColumn.Basic
import LogicalTable.LogicalColumn.Builder
import LogicalTable.LogicalColumn.Geo
import LogicalTable.Main
import LogicalTable.Proofs.Calendar.Clocks
import LogicalTable.Proofs.Calendar.DayNumbers
import LogicalTable.Proofs.Columnar.BuiltValues
import LogicalTable.Proofs.Columnar.FactoryVersions
import LogicalTable.Proofs.Columnar.HostSchemas
import LogicalTable.Proofs.Columnar.Layouts
import LogicalTable.Proofs.Columnar.PhysicalShapes
import LogicalTable.Proofs.Columnar.Readable
import LogicalTable.Proofs.Columnar.Recovered
import LogicalTable.Proofs.Columnar.Relayed
import LogicalTable.Proofs.Columnar.SchemaRoundTrip
import LogicalTable.Proofs.Columnar.StorageRoundTrip
import LogicalTable.Proofs.Columnar.StoredValues
import LogicalTable.Proofs.CommandLine.Sentinels
import LogicalTable.Proofs.DataType.Logical
import LogicalTable.Proofs.DataType.Text
import LogicalTable.Proofs.Dictionary.Calls
import LogicalTable.Proofs.Dictionary.Exhausted
import LogicalTable.Proofs.Dictionary.Expansion
import LogicalTable.Proofs.Dictionary.FirstRows
import LogicalTable.Proofs.Dictionary.Keys
import LogicalTable.Proofs.Dictionary.Lossless
import LogicalTable.Proofs.Dictionary.Room
import LogicalTable.Proofs.Dictionary.Slices
import LogicalTable.Proofs.Dictionary.Slots
import LogicalTable.Proofs.Exchange.Documents
import LogicalTable.Proofs.Exchange.ListTags
import LogicalTable.Proofs.Exchange.MemberOrder
import LogicalTable.Proofs.Exchange.Nesting
import LogicalTable.Proofs.Exchange.Reimport
import LogicalTable.Proofs.Exchange.RoundTrip
import LogicalTable.Proofs.Exchange.TextPaths
import LogicalTable.Proofs.Exchange.Tolerances
import LogicalTable.Proofs.Exchange.Unwrapping
import LogicalTable.Proofs.Geometry.Accepted
import LogicalTable.Proofs.Geometry.Delimited
import LogicalTable.Proofs.Geometry.Rewritten
import LogicalTable.Proofs.Geometry.Tree
import LogicalTable.Proofs.Geometry.Words
import LogicalTable.Proofs.Geometry.Written
import LogicalTable.Proofs.Json.Nesting
import LogicalTable.Proofs.Json.Printed
import LogicalTable.Proofs.Json.Sorted
import LogicalTable.Proofs.LogicalColumn.Access
import LogicalTable.Proofs.LogicalColumn.BuilderInvariants
import LogicalTable.Proofs.LogicalColumn.Building
import LogicalTable.Proofs.LogicalColumn.Capacity
import LogicalTable.Proofs.LogicalColumn.ChunkAcceptance
import LogicalTable.Proofs.LogicalColumn.Failures
import LogicalTable.Proofs.LogicalColumn.Joined
import LogicalTable.Proofs.LogicalColumn.Pieces
import LogicalTable.Proofs.LogicalColumn.ReadableChunks
import LogicalTable.Proofs.LogicalColumn.RowPlaces
import LogicalTable.Proofs.LogicalColumn.Views
import LogicalTable.Proofs.Outcome
import LogicalTable.Proofs.Registry.Loading
import LogicalTable.Proofs.Registry.Runs
import LogicalTable.Proofs.Registry.StandardTypes
import LogicalTable.Proofs.Registry.Tables
import LogicalTable.Proofs.Registry.TextRegistration
import LogicalTable.Proofs.Schema.Operations
import LogicalTable.Proofs.Table.Across
import LogicalTable.Proofs.Table.Foreign
import LogicalTable.Proofs.Table.MissingIntegers
import LogicalTable.Proofs.Table.Readings
import LogicalTable.Proofs.Table.RoundTrip
import LogicalTable.Proofs.Table.Sentinels
import LogicalTable.Proofs.Table.Written
import LogicalTable.Proofs.ValueFactory.Conformance
import LogicalTable.Proofs.ValueFactory.Dates
import LogicalTable.Proofs.ValueFactory.Durations
import LogicalTable.Proofs.ValueFactory.Times
import LogicalTable.Proofs.ValueFactory.Zones
import LogicalTable.Registry.Basic
import LogicalTable.Registry.BuiltIn
import LogicalTable.Registry.Factory
import LogicalTable.Report.Basic
import LogicalTable.Report.Grid
import LogicalTable.Schema.Basic
import LogicalTable.Schema.Column
import LogicalTable.Table.Basic
import LogicalTable.Table.Batch
import LogicalTable.Table.Sentinel
import LogicalTable.Text.Blank
import LogicalTable.Text.Numeral
import LogicalTable.Text.Quoted
import LogicalTable.Text.Shown
import LogicalTable.Text.Width
import LogicalTable.Value.Rich
import LogicalTable.Value.Storage
