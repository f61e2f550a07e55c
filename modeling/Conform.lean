import Conform.Main
import Conform.Options.Json
import Conform.Registry.Remembered
import Conform.Value.Fingerprint
import Conform.Proofs.Coupling.Basic
import Conform.Proofs.Rule.Induction
import Conform.Proofs.Coupling.Reading
import Conform.Proofs.Coupling.Schema
import Conform.Proofs.Coupling.Exact
import Conform.Proofs.Schema.Keys
import Conform.Proofs.Schema.Search
import Conform.Proofs.Schema.Unambiguous
import Conform.Proofs.Schema.Update
import Conform.Proofs.Coupling.Success
import Conform.Proofs.Collecting
import Conform.Proofs.Schema.Dependencies
import Conform.Proofs.Constraint.Disturbance
import Conform.Proofs.Rule.Declaration
import Conform.Proofs.Rule.Constrained
import Conform.Proofs.Rule.Strict
import Conform.Proofs.Conversion.Exact
import Conform.Proofs.Rule.Meaning
import Conform.Proofs.Rule.Conforming
import Conform.Proofs.Rule.Idempotent
import Conform.Proofs.Rule.Combined
import Conform.Proofs.Limit.Basic
import Conform.Proofs.Limit.Reading
import Conform.Proofs.Limit.Schema
import Conform.Proofs.Parse.Place
import Conform.Proofs.Schema.Waiting
import Conform.Proofs.Schema.Discriminated
import Conform.Proofs.Parse.Accepted
import Conform.Proofs.Schema.Accepted
import Conform.Proofs.Schema.Required
import Conform.Proofs.Schema.Gathered
import Conform.Proofs.Schema.RoundTrip
import Conform.Proofs.Schema.Output
import Conform.Proofs.Numeric.Digits
import Conform.Proofs.Numeric.Decimal
import Conform.Proofs.Numeric.Numeral
import Conform.Proofs.Conversion.Number
import Conform.Proofs.Text.Ranges
import Conform.Proofs.Text.Blank
import Conform.Proofs.Pattern.Known
import Conform.Proofs.Calendar.Date
import Conform.Proofs.Calendar.Reading
import Conform.Proofs.Calendar.Instant
import Conform.Proofs.Calendar.Span
import Conform.Proofs.Uuid
import Conform.Proofs.Numeric.Written
import Conform.Proofs.Conversion.ReadBack
import Conform.Proofs.Registry.Remembered
import Conform.Proofs.Ground.Basic
import Conform.Proofs.Ground.Reading
import Conform.Proofs.Ground.Schema
import Conform.Proofs.Ground.Routes
import Conform.Proofs.Ground.Expansion
import Conform.Proofs.Parse.Collected
import Conform.Proofs.Schema.Blamed
import Conform.Proofs.Schema.Reported
import Conform.Proofs.Json.ReadBack
import Conform.Proofs.Literal
import Conform.Proofs.Conversion.Nested
import Conform.Proofs.Value.Equality
import Conform.Proofs.Numeric.Exact
import Conform.Proofs.Conversion.Proper
import Conform.Proofs.Constraint.Compliant
import Conform.Proofs.Schema.Locality
import Conform.Proofs.Schema.Excess
import Conform.Proofs.Schema.Deferred
import Conform.Proofs.Conversion.Strictness
import Conform.Proofs.Text.Utf8
import Conform.Proofs.Conversion.Lone
import Conform.Proofs.Rule.Members
import Conform.Proofs.Rule.Bounds
import Conform.Proofs.Value.Shape
import Conform.Proofs.Rule.Permuted
import Conform.Proofs.Rule.Positions
import Conform.Proofs.Numeric.Binary64
import Conform.Proofs.Numeric.Shortest
import Conform.Proofs.Numeric.Spelled
import Conform.Proofs.Numeric.Spelling
import Conform.Proofs.Value.Fingerprint
import Conform.Proofs.Value.Order
import Conform.Proofs.Conversion.Epoch
import Conform.Proofs.Conversion.Temporal
import Conform.Proofs.Options.Merging
import Conform.Proofs.Rule.Single
import Conform.Proofs.Rule.Precision
import Conform.Proofs.Rule.Successor
import Conform.Proofs.Value.Spelling
import Conform.Proofs.Constraint.Spelling
import Conform.Proofs.Coupling.Spelling
import Conform.Proofs.Rule.Respelled
import Conform.Proofs.Conversion.FormData
import Conform.Proofs.Reference
import Conform.Proofs.Literal.Word
import Conform.Proofs.Conversion.Structured
