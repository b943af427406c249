import RelDoc.Codec
import RelDoc.Command.Basic
import RelDoc.Command.Filter
import RelDoc.Command.Operator
import RelDoc.Command.Render
import RelDoc.Command.Stage
import RelDoc.Command.Term
import RelDoc.Data.Bytes
import RelDoc.Data.Dict
import RelDoc.Error
import RelDoc.Exchange.Basic
import RelDoc.Exchange.Program
import RelDoc.Json.Basic
import RelDoc.Json.Reader
import RelDoc.Mapping.Basic
import RelDoc.Mapping.Config
import RelDoc.Number.DecimalText
import RelDoc.Number.Double
import RelDoc.Number.Layout
import RelDoc.Number.Shortest
import RelDoc.Plan.Direct
import RelDoc.Plan.Fragment
import RelDoc.Plan.Rules
import RelDoc.Plan.Visit
import RelDoc.Proofs.Agreement
import RelDoc.Proofs.Assertions
import RelDoc.Proofs.Comparing
import RelDoc.Proofs.Construction
import RelDoc.Proofs.Discipline
import RelDoc.Proofs.Equivalence
import RelDoc.Proofs.Execution
import RelDoc.Proofs.Failure
import RelDoc.Proofs.Filling
import RelDoc.Proofs.Identity
import RelDoc.Proofs.Insertion
import RelDoc.Proofs.Interchange
import RelDoc.Proofs.Isolation
import RelDoc.Proofs.Lifting
import RelDoc.Proofs.Mutation
import RelDoc.Proofs.Numerals
import RelDoc.Proofs.Outcome
import RelDoc.Proofs.Parameters
import RelDoc.Proofs.Pinning
import RelDoc.Proofs.Placement
import RelDoc.Proofs.Planned
import RelDoc.Proofs.Projecting
import RelDoc.Proofs.Query
import RelDoc.Proofs.Reachable
import RelDoc.Proofs.Reading
import RelDoc.Proofs.Recognition
import RelDoc.Proofs.Refusal
import RelDoc.Proofs.Rendered
import RelDoc.Proofs.RoundTrip
import RelDoc.Proofs.Rows
import RelDoc.Proofs.Sorting
import RelDoc.Proofs.Spelling
import RelDoc.Proofs.TextForm
import RelDoc.Proofs.Transparency
import RelDoc.Proofs.Truth
import RelDoc.Scalar
import RelDoc.Session
import RelDoc.Statement.Basic
import RelDoc.Store.Basic
import RelDoc.Store.Match
import RelDoc.Store.Pipeline
import RelDoc.Text.Base64
import RelDoc.Text.Blank
import RelDoc.Text.Escaped
import RelDoc.Text.Hex
import RelDoc.Text.Printable
import RelDoc.Text.Quoted
import RelDoc.Time.Calendar
import RelDoc.Time.Instant
import RelDoc.Value.Basic
import RelDoc.Value.Binary
import RelDoc.Value.Display
import RelDoc.Value.Equality
import RelDoc.Value.Extended
import RelDoc.Value.Inspect
import RelDoc.Value.Order
import RelDoc.Writer.Basic
import RelDoc.Writer.Binding
import RelDoc.Writer.Builder
import RelDoc.Writer.JsonText
import RelDoc.Proofs.Immutability
import RelDoc.Proofs.Sorted
import RelDoc.Proofs.Integers
import RelDoc.Proofs.Targets
import RelDoc.Proofs.Frame
import RelDoc.Proofs.Paths
import RelDoc.Proofs.Removals
import RelDoc.Proofs.Retry
import RelDoc.Proofs.Stages
import RelDoc.Proofs.Scope
import RelDoc.Proofs.Configured
import RelDoc.Proofs.Exactness
import RelDoc.Proofs.Unopened
import RelDoc.Proofs.Pieces
