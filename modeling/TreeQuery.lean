import TreeQuery.Arguments
import TreeQuery.Batch
import TreeQuery.Clause.Basic
import TreeQuery.Clause.Draft
import TreeQuery.Connection
import TreeQuery.Cursor
import TreeQuery.Double.Basic
import TreeQuery.Double.Decimal
import TreeQuery.Error
import TreeQuery.Execution
import TreeQuery.Fields
import TreeQuery.Grouping
import TreeQuery.Hydration
import TreeQuery.Json.Basic
import TreeQuery.Json.Parser
import TreeQuery.Json.Printer
import TreeQuery.Json.Scaling
import TreeQuery.Order
import TreeQuery.Params
import TreeQuery.Plan.Basic
import TreeQuery.Plan.Namespace
import TreeQuery.Plan.OfSelection
import TreeQuery.Plan.Outline
import TreeQuery.Plan.Paging
import TreeQuery.Proofs.Avoidance
import TreeQuery.Proofs.Batch.Correlation
import TreeQuery.Proofs.Batch.Multiplicity
import TreeQuery.Proofs.Batch.Siblings
import TreeQuery.Proofs.Batch.Splicing
import TreeQuery.Proofs.Connection.Conversion
import TreeQuery.Proofs.Connection.Cursors
import TreeQuery.Proofs.Connection.Filled
import TreeQuery.Proofs.Connection.Keyset
import TreeQuery.Proofs.Connection.Offset
import TreeQuery.Proofs.Connection.Trimmed
import TreeQuery.Proofs.Connection.Understood
import TreeQuery.Proofs.Cursor
import TreeQuery.Proofs.Cursor.Accepted
import TreeQuery.Proofs.Cursor.Offset
import TreeQuery.Proofs.Cursor.RoundTrip
import TreeQuery.Proofs.Double.Number
import TreeQuery.Proofs.Error
import TreeQuery.Proofs.Execution.Abreast
import TreeQuery.Proofs.Execution.Answered
import TreeQuery.Proofs.Execution.Filled
import TreeQuery.Proofs.Execution.Internal
import TreeQuery.Proofs.Execution.KeysetPage
import TreeQuery.Proofs.Execution.KeysetWalk
import TreeQuery.Proofs.Execution.Minified
import TreeQuery.Proofs.Execution.OffsetPage
import TreeQuery.Proofs.Execution.Refusals
import TreeQuery.Proofs.Execution.Relabelled
import TreeQuery.Proofs.Execution.Statements
import TreeQuery.Proofs.Execution.Totals
import TreeQuery.Proofs.Execution.ValidResults
import TreeQuery.Proofs.Execution.Visits
import TreeQuery.Proofs.Fields
import TreeQuery.Proofs.Grouping
import TreeQuery.Proofs.Hydration.Complete
import TreeQuery.Proofs.Hydration.FanOut
import TreeQuery.Proofs.Hydration.KeyTexts
import TreeQuery.Proofs.Hydration.Links
import TreeQuery.Proofs.Hydration.Nested
import TreeQuery.Proofs.Hydration.Paired
import TreeQuery.Proofs.Hydration.Parents
import TreeQuery.Proofs.Hydration.Scalars
import TreeQuery.Proofs.Hydration.Singles
import TreeQuery.Proofs.Json.Items
import TreeQuery.Proofs.Json.Members
import TreeQuery.Proofs.Json.Reading
import TreeQuery.Proofs.Json.Scalars
import TreeQuery.Proofs.Lockstep
import TreeQuery.Proofs.Params
import TreeQuery.Proofs.Params.Calls
import TreeQuery.Proofs.Plan.Boundaries
import TreeQuery.Proofs.Plan.Bounds
import TreeQuery.Proofs.Plan.Closed
import TreeQuery.Proofs.Plan.Columns
import TreeQuery.Proofs.Plan.Counted
import TreeQuery.Proofs.Plan.Entries
import TreeQuery.Proofs.Plan.Identity
import TreeQuery.Proofs.Plan.Labels
import TreeQuery.Proofs.Plan.Namespace
import TreeQuery.Proofs.Plan.Planned
import TreeQuery.Proofs.Plan.Relabelled
import TreeQuery.Proofs.Plan.Requested
import TreeQuery.Proofs.Plan.Sources
import TreeQuery.Proofs.Plan.TableLabels
import TreeQuery.Proofs.Plan.Taking
import TreeQuery.Proofs.Plan.Twice
import TreeQuery.Proofs.Plan.Walk
import TreeQuery.Proofs.Plan.WellFormed
import TreeQuery.Proofs.Repeats
import TreeQuery.Proofs.Session
import TreeQuery.Proofs.Shape
import TreeQuery.Proofs.Shape.Collected
import TreeQuery.Proofs.Sql.Answers
import TreeQuery.Proofs.Sql.Binding
import TreeQuery.Proofs.Sql.Chains
import TreeQuery.Proofs.Sql.ClauseTruth
import TreeQuery.Proofs.Sql.ConditionText
import TreeQuery.Proofs.Sql.Expansion
import TreeQuery.Proofs.Sql.Filters
import TreeQuery.Proofs.Sql.Flavors
import TreeQuery.Proofs.Sql.InPlace
import TreeQuery.Proofs.Sql.Internal
import TreeQuery.Proofs.Sql.KeyTexts
import TreeQuery.Proofs.Sql.Keyset
import TreeQuery.Proofs.Sql.KeysetRoot
import TreeQuery.Proofs.Sql.Labels
import TreeQuery.Proofs.Sql.Legible
import TreeQuery.Proofs.Sql.Limits
import TreeQuery.Proofs.Sql.Names
import TreeQuery.Proofs.Sql.NestedNames
import TreeQuery.Proofs.Sql.NullKeys
import TreeQuery.Proofs.Sql.OuterJoins
import TreeQuery.Proofs.Sql.Outputs
import TreeQuery.Proofs.Sql.PageOrder
import TreeQuery.Proofs.Sql.Placeholders
import TreeQuery.Proofs.Sql.RawClauses
import TreeQuery.Proofs.Sql.Reading
import TreeQuery.Proofs.Sql.References
import TreeQuery.Proofs.Sql.Regrouping
import TreeQuery.Proofs.Sql.Relations
import TreeQuery.Proofs.Sql.Restricted
import TreeQuery.Proofs.Sql.RootPage
import TreeQuery.Proofs.Sql.SameBinding
import TreeQuery.Proofs.Sql.SameSource
import TreeQuery.Proofs.Sql.SameText
import TreeQuery.Proofs.Sql.Scanning
import TreeQuery.Proofs.Sql.Scopes
import TreeQuery.Proofs.Sql.SelectList
import TreeQuery.Proofs.Sql.Selectable
import TreeQuery.Proofs.Sql.Selected
import TreeQuery.Proofs.Sql.Tokens
import TreeQuery.Proofs.Sql.Variants
import TreeQuery.Proofs.Sql.Vocabulary
import TreeQuery.Proofs.Sql.Words
import TreeQuery.Proofs.Success
import TreeQuery.Proofs.Text.Base64
import TreeQuery.Proofs.Text.FreshName
import TreeQuery.Proofs.Text.Identifier
import TreeQuery.Proofs.Text.Numeral
import TreeQuery.Proofs.Value.Keys
import TreeQuery.Row
import TreeQuery.Schema.Basic
import TreeQuery.Schema.Recipe
import TreeQuery.Schema.Validation
import TreeQuery.Script
import TreeQuery.Selection
import TreeQuery.Session
import TreeQuery.Shape
import TreeQuery.Sql.Error
import TreeQuery.Sql.OfPlan
import TreeQuery.Sql.Page
import TreeQuery.Sql.Predicate
import TreeQuery.Sql.Raw
import TreeQuery.Sql.Statement
import TreeQuery.Sql.Token
import TreeQuery.Text.Base64
import TreeQuery.Text.Blank
import TreeQuery.Text.FreshName
import TreeQuery.Text.Identifier
import TreeQuery.Text.Numeral
import TreeQuery.Text.Printable
import TreeQuery.Text.Quoted
import TreeQuery.Text.Segments
import TreeQuery.Value.Basic
import TreeQuery.Value.Key
import TreeQuery.Value.Printer
