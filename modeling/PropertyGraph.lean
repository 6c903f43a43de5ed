import PropertyGraph.Assoc
import PropertyGraph.Base64
import PropertyGraph.Batch.Chunk
import PropertyGraph.Batch.Hydrate
import PropertyGraph.Batch.Retry
import PropertyGraph.Batch.Write
import PropertyGraph.Clock
import PropertyGraph.Cursor
import PropertyGraph.Decimal.Nearest
import PropertyGraph.Decimal.Scaled
import PropertyGraph.Decimal.Shortest
import PropertyGraph.Deletion
import PropertyGraph.Dict
import PropertyGraph.Engine
import PropertyGraph.Error
import PropertyGraph.Filter.Basic
import PropertyGraph.Filter.Predicate
import PropertyGraph.Filter.Reader
import PropertyGraph.Json.Basic
import PropertyGraph.Json.Form
import PropertyGraph.Json.Printer
import PropertyGraph.Json.Reader
import PropertyGraph.Json.Structure
import PropertyGraph.Json.Token
import PropertyGraph.Json.Values
import PropertyGraph.Payload.Branch
import PropertyGraph.Payload.Expand
import PropertyGraph.Payload.Identity
import PropertyGraph.Proofs.Alternatives
import PropertyGraph.Proofs.AnyCursor
import PropertyGraph.Proofs.Arrivals
import PropertyGraph.Proofs.Ascending
import PropertyGraph.Proofs.AtAnyDepth
import PropertyGraph.Proofs.Backoff
import PropertyGraph.Proofs.Base64
import PropertyGraph.Proofs.ByteOrder
import PropertyGraph.Proofs.ChunkFates
import PropertyGraph.Proofs.Chunks
import PropertyGraph.Proofs.Codec
import PropertyGraph.Proofs.Comparisons
import PropertyGraph.Proofs.ConcurrentWalk
import PropertyGraph.Proofs.Conversion
import PropertyGraph.Proofs.Cursor
import PropertyGraph.Proofs.Deleting
import PropertyGraph.Proofs.Effects
import PropertyGraph.Proofs.EveryRow
import PropertyGraph.Proofs.Expiry
import PropertyGraph.Proofs.Faults
import PropertyGraph.Proofs.FilterGrammar
import PropertyGraph.Proofs.FilteredPath
import PropertyGraph.Proofs.FloatRange
import PropertyGraph.Proofs.FullScan
import PropertyGraph.Proofs.Growth
import PropertyGraph.Proofs.Hidden
import PropertyGraph.Proofs.Hydration
import PropertyGraph.Proofs.Integrity
import PropertyGraph.Proofs.JsonText
import PropertyGraph.Proofs.Limits
import PropertyGraph.Proofs.Listing
import PropertyGraph.Proofs.Marking
import PropertyGraph.Proofs.Matching
import PropertyGraph.Proofs.Overwriting
import PropertyGraph.Proofs.Paging
import PropertyGraph.Proofs.Pairing
import PropertyGraph.Proofs.PartialDeletion
import PropertyGraph.Proofs.PayloadGrammar
import PropertyGraph.Proofs.PayloadObjects
import PropertyGraph.Proofs.PayloadShape
import PropertyGraph.Proofs.PayloadTree
import PropertyGraph.Proofs.QueryPages
import PropertyGraph.Proofs.Racing
import PropertyGraph.Proofs.Reachable
import PropertyGraph.Proofs.ReadBack
import PropertyGraph.Proofs.Readable
import PropertyGraph.Proofs.Reducing
import PropertyGraph.Proofs.Removal
import PropertyGraph.Proofs.RequestLimits
import PropertyGraph.Proofs.RootLevel
import PropertyGraph.Proofs.SettingsRules
import PropertyGraph.Proofs.Shown
import PropertyGraph.Proofs.Sides
import PropertyGraph.Proofs.SingularPath
import PropertyGraph.Proofs.StoredRows
import PropertyGraph.Proofs.StrictReading
import PropertyGraph.Proofs.Symmetry
import PropertyGraph.Proofs.Traversal
import PropertyGraph.Proofs.TwoReads
import PropertyGraph.Proofs.Walk
import PropertyGraph.Proofs.Watched
import PropertyGraph.Proofs.WellFormed
import PropertyGraph.Proofs.WireForms
import PropertyGraph.Proofs.Writing
import PropertyGraph.Reduction
import PropertyGraph.Request
import PropertyGraph.Request.Wire
import PropertyGraph.Response
import PropertyGraph.Response.Wire
import PropertyGraph.Row.Codec
import PropertyGraph.Row.Key
import PropertyGraph.Row.Record
import PropertyGraph.Schema.Basic
import PropertyGraph.Schema.Side
import PropertyGraph.Schema.Wire
import PropertyGraph.Settings.Basic
import PropertyGraph.Settings.Content
import PropertyGraph.Settings.Environment
import PropertyGraph.Settings.Layers
import PropertyGraph.Settings.Load
import PropertyGraph.Settings.LogFilter
import PropertyGraph.Settings.Wire
import PropertyGraph.Sorted
import PropertyGraph.Store.Basic
import PropertyGraph.Store.Query
import PropertyGraph.Store.Storage
import PropertyGraph.Store.Table
import PropertyGraph.Text.Alphanumeric
import PropertyGraph.Text.Blank
import PropertyGraph.Text.CharSet
import PropertyGraph.Text.Hex
import PropertyGraph.Text.Quoted
import PropertyGraph.Text.Scan
import PropertyGraph.Text.Visible
import PropertyGraph.Toml.Basic
import PropertyGraph.Toml.Numeral
import PropertyGraph.Toml.Quoted
import PropertyGraph.Toml.Reader
import PropertyGraph.Toml.Table
import PropertyGraph.Traversal
import PropertyGraph.Value
import PropertyGraph.Value.Display
