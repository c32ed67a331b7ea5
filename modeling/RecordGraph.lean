import RecordGraph.Access.Decision
import RecordGraph.Access.Guard
import RecordGraph.Access.Principal
import RecordGraph.Access.Rule
import RecordGraph.Access.Table
import RecordGraph.Access.Viewpoint
import RecordGraph.Failure.Basic
import RecordGraph.Failure.Code
import RecordGraph.Failure.Disclosure
import RecordGraph.Filter.Clause
import RecordGraph.Filter.Operand
import RecordGraph.Filter.Parser
import RecordGraph.Hook.Context
import RecordGraph.Hook.Registry
import RecordGraph.Mutation.Create
import RecordGraph.Mutation.Payload
import RecordGraph.Mutation.Update
import RecordGraph.Number.Binary64
import RecordGraph.Number.Decimal
import RecordGraph.Number.Fraction
import RecordGraph.Number.Layout
import RecordGraph.Number.Shortest
import RecordGraph.Operation.Act
import RecordGraph.Operation.BatchUpsert
import RecordGraph.Operation.Engine
import RecordGraph.Operation.Key
import RecordGraph.Operation.Outcome
import RecordGraph.Operation.Read
import RecordGraph.Operation.Storage
import RecordGraph.Operation.Write
import RecordGraph.Proofs.Access.Cleaning
import RecordGraph.Proofs.Access.Concurrence
import RecordGraph.Proofs.Access.Conjunction
import RecordGraph.Proofs.Access.Merge
import RecordGraph.Proofs.Access.Narrowing
import RecordGraph.Proofs.Access.Tidiness
import RecordGraph.Proofs.Access.Verdict
import RecordGraph.Proofs.Failure.Refusal
import RecordGraph.Proofs.Failure.Success
import RecordGraph.Proofs.Filter.Addressing
import RecordGraph.Proofs.Filter.Brackets
import RecordGraph.Proofs.Filter.Clauses
import RecordGraph.Proofs.Filter.Complement
import RecordGraph.Proofs.Filter.Idle
import RecordGraph.Proofs.Filter.Integers
import RecordGraph.Proofs.Filter.Joining
import RecordGraph.Proofs.Filter.Literals
import RecordGraph.Proofs.Filter.Opposition
import RecordGraph.Proofs.Filter.Paths
import RecordGraph.Proofs.Filter.Readable
import RecordGraph.Proofs.Filter.Vocabulary
import RecordGraph.Proofs.Hook.Log
import RecordGraph.Proofs.Hook.Spots
import RecordGraph.Proofs.Mutation.Acceptance
import RecordGraph.Proofs.Mutation.Closure
import RecordGraph.Proofs.Mutation.Confinement
import RecordGraph.Proofs.Mutation.Created
import RecordGraph.Proofs.Mutation.Declared
import RecordGraph.Proofs.Mutation.Denial
import RecordGraph.Proofs.Mutation.Entries
import RecordGraph.Proofs.Mutation.Limits
import RecordGraph.Proofs.Mutation.Linking
import RecordGraph.Proofs.Mutation.Lists
import RecordGraph.Proofs.Mutation.Misshapen
import RecordGraph.Proofs.Mutation.Nesting
import RecordGraph.Proofs.Mutation.Origin
import RecordGraph.Proofs.Mutation.Outcome
import RecordGraph.Proofs.Mutation.Parents
import RecordGraph.Proofs.Mutation.Part
import RecordGraph.Proofs.Mutation.Ready
import RecordGraph.Proofs.Mutation.Reordering
import RecordGraph.Proofs.Mutation.Retention
import RecordGraph.Proofs.Mutation.Rows
import RecordGraph.Proofs.Mutation.Settled
import RecordGraph.Proofs.Mutation.Spoken
import RecordGraph.Proofs.Mutation.Stability
import RecordGraph.Proofs.Mutation.Steps
import RecordGraph.Proofs.Mutation.Tallies
import RecordGraph.Proofs.Mutation.Updated
import RecordGraph.Proofs.Mutation.Withheld
import RecordGraph.Proofs.Number.Rounding
import RecordGraph.Proofs.Operation.Accounting
import RecordGraph.Proofs.Operation.Agreement
import RecordGraph.Proofs.Operation.Atomicity
import RecordGraph.Proofs.Operation.Avoiding
import RecordGraph.Proofs.Operation.Batches
import RecordGraph.Proofs.Operation.BulkCreation
import RecordGraph.Proofs.Operation.Chains
import RecordGraph.Proofs.Operation.Classification
import RecordGraph.Proofs.Operation.Getting
import RecordGraph.Proofs.Operation.Identity
import RecordGraph.Proofs.Operation.Interleaving
import RecordGraph.Proofs.Operation.JoinedIds
import RecordGraph.Proofs.Operation.Keyless
import RecordGraph.Proofs.Operation.Paging
import RecordGraph.Proofs.Operation.Planning
import RecordGraph.Proofs.Operation.Privilege
import RecordGraph.Proofs.Operation.Reads
import RecordGraph.Proofs.Operation.Recording
import RecordGraph.Proofs.Operation.Refusals
import RecordGraph.Proofs.Operation.Results
import RecordGraph.Proofs.Operation.Running
import RecordGraph.Proofs.Operation.Secrecy
import RecordGraph.Proofs.Operation.Stages
import RecordGraph.Proofs.Operation.Tracing
import RecordGraph.Proofs.Operation.Writing
import RecordGraph.Proofs.Query.FieldList
import RecordGraph.Proofs.Query.Filtering
import RecordGraph.Proofs.Query.Included
import RecordGraph.Proofs.Query.Modes
import RecordGraph.Proofs.Query.Screening
import RecordGraph.Proofs.Query.Selected
import RecordGraph.Proofs.Query.Shown
import RecordGraph.Proofs.Query.Vetting
import RecordGraph.Proofs.Relational.Answering
import RecordGraph.Proofs.Relational.Building
import RecordGraph.Proofs.Relational.Cells
import RecordGraph.Proofs.Relational.Choosing
import RecordGraph.Proofs.Relational.Concealment
import RecordGraph.Proofs.Relational.Deciding
import RecordGraph.Proofs.Relational.Describing
import RecordGraph.Proofs.Relational.Disclosure
import RecordGraph.Proofs.Relational.Finding
import RecordGraph.Proofs.Relational.Keys
import RecordGraph.Proofs.Relational.Likeness
import RecordGraph.Proofs.Relational.Lookup
import RecordGraph.Proofs.Relational.Meaning
import RecordGraph.Proofs.Relational.Naming
import RecordGraph.Proofs.Relational.Ordering
import RecordGraph.Proofs.Relational.Quantifying
import RecordGraph.Proofs.Relational.Refinement
import RecordGraph.Proofs.Relational.Rendering
import RecordGraph.Proofs.Relational.Retrieval
import RecordGraph.Proofs.Relational.Session.Changing
import RecordGraph.Proofs.Relational.Session.Confining
import RecordGraph.Proofs.Relational.Session.Editing
import RecordGraph.Proofs.Relational.Session.Flushing
import RecordGraph.Proofs.Relational.Session.Inserting
import RecordGraph.Proofs.Relational.Session.Invariant
import RecordGraph.Proofs.Relational.Session.Linking
import RecordGraph.Proofs.Relational.Session.Making
import RecordGraph.Proofs.Relational.Session.Vocabulary
import RecordGraph.Proofs.Relational.Sieving
import RecordGraph.Proofs.Relational.Skipping
import RecordGraph.Proofs.Relational.Storable
import RecordGraph.Proofs.Relational.Touching
import RecordGraph.Proofs.Relational.Undoing
import RecordGraph.Proofs.Relational.Uniqueness
import RecordGraph.Proofs.Rest.Listing
import RecordGraph.Proofs.Schema.Names
import RecordGraph.Proofs.Schema.Roles
import RecordGraph.Proofs.Text.Escaping
import RecordGraph.Proofs.Text.Splitting
import RecordGraph.Proofs.Time.Calendar
import RecordGraph.Proofs.Value.Members
import RecordGraph.Proofs.Value.Proper
import RecordGraph.Proofs.Value.Reordering
import RecordGraph.Query.Include
import RecordGraph.Query.Plan
import RecordGraph.Query.Selection
import RecordGraph.Relational.Cell
import RecordGraph.Relational.Change
import RecordGraph.Relational.Column
import RecordGraph.Relational.Condition
import RecordGraph.Relational.Database
import RecordGraph.Relational.Duplicates
import RecordGraph.Relational.Fault
import RecordGraph.Relational.Model
import RecordGraph.Relational.Record
import RecordGraph.Relational.Session
import RecordGraph.Relational.Session.Flush
import RecordGraph.Relational.Session.Link
import RecordGraph.Relational.Sorting
import RecordGraph.Relational.Store
import RecordGraph.Relational.Transaction
import RecordGraph.Relational.Where
import RecordGraph.Rest.Request
import RecordGraph.Rest.Route
import RecordGraph.Rest.Service
import RecordGraph.Schema.Basic
import RecordGraph.Schema.Declaration
import RecordGraph.Schema.Description
import RecordGraph.Settings
import RecordGraph.Text.Blank
import RecordGraph.Text.Digit
import RecordGraph.Text.Folding
import RecordGraph.Text.Numeral
import RecordGraph.Text.Percent
import RecordGraph.Text.Printable
import RecordGraph.Text.Quoted
import RecordGraph.Text.Split
import RecordGraph.Time.Calendar
import RecordGraph.Time.Reading
import RecordGraph.Value.Basic
import RecordGraph.Value.Conversion
import RecordGraph.Value.Display
import RecordGraph.Value.Equality
import RecordGraph.Value.Json
import RecordGraph.Value.Tagged
