import RecordStore.Text.Blank
import RecordStore.Text.Case
import RecordStore.Text.Digit
import RecordStore.Text.Printable
import RecordStore.Text.Quoted
import RecordStore.Number.Numeral
import RecordStore.Value.Display
import RecordStore.Value.Order
import RecordStore.Query.Reading
import RecordStore.Query.Script
import RecordStore.Schema.Validation
import RecordStore.Filter.Operator
import RecordStore.Notice
import RecordStore.Index
import RecordStore.Query.Execution
import RecordStore.Registry
import RecordStore.Shell.Listing
import RecordStore.Shell.Invocation
import RecordStore.Web.Service
import RecordStore.Main
import RecordStore.Proofs.Entries
import RecordStore.Proofs.Index
import RecordStore.Proofs.Kind
import RecordStore.Proofs.Number.Rounding
import RecordStore.Proofs.Number.Order
import RecordStore.Proofs.Number.Decimal
import RecordStore.Proofs.Number.Digits
import RecordStore.Proofs.Number.Shortest
import RecordStore.Proofs.Schema
import RecordStore.Proofs.Validation
import RecordStore.Proofs.Numbering
import RecordStore.Proofs.Table.Steady
import RecordStore.Proofs.Table.Step
import RecordStore.Proofs.Table.Run
import RecordStore.Proofs.Table.Agreement
import RecordStore.Proofs.Table.Canonical
import RecordStore.Proofs.Table.Consistency
import RecordStore.Proofs.Table.Matching
import RecordStore.Proofs.Table.Uniqueness
import RecordStore.Proofs.Table.Loading
import RecordStore.Proofs.Work
import RecordStore.Proofs.Site
import RecordStore.Proofs.Table.Failure
import RecordStore.Proofs.Query.Execution
import RecordStore.Proofs.Query.Failure
import RecordStore.Proofs.Calendar.Pattern
import RecordStore.Proofs.Value.Induction
import RecordStore.Proofs.Snapshot.Numeral
import RecordStore.Proofs.Snapshot.Quote
import RecordStore.Proofs.Snapshot.Reading
import RecordStore.Proofs.Snapshot.Restored
import RecordStore.Proofs.Snapshot.Lasting
import RecordStore.Proofs.Snapshot.Dates
import RecordStore.Proofs.Snapshot.Legible
import RecordStore.Proofs.Path
import RecordStore.Proofs.Disk
import RecordStore.Proofs.World
import RecordStore.Proofs.Table.Files
import RecordStore.Proofs.Table.Saving
import RecordStore.Proofs.Site.Step
import RecordStore.Proofs.Query.Step
import RecordStore.Proofs.Site.Apart
import RecordStore.Proofs.Schema.Description
import RecordStore.Proofs.Schema.Restored
import RecordStore.Proofs.Table.Tidy
import RecordStore.Proofs.Table.Storing
import RecordStore.Proofs.Table.Rows
import RecordStore.Proofs.Table.Reloading
import RecordStore.Proofs.Table.Returning
import RecordStore.Proofs.Site.Mirrored
import RecordStore.Proofs.Site.Opening
import RecordStore.Proofs.Site.Reopening
import RecordStore.Proofs.Table.Simple
import RecordStore.Proofs.Table.Readable
import RecordStore.Proofs.Query.Literals
import RecordStore.Proofs.Query.Reopening
import RecordStore.Proofs.Table.Conformance
import RecordStore.Proofs.Snapshot.Marks
import RecordStore.Proofs.Schema.Accepted
import RecordStore.Proofs.Table.Descent
import RecordStore.Proofs.Table.Identity
import RecordStore.Proofs.Table.Holding
import RecordStore.Proofs.Site.Blocking
import RecordStore.Proofs.Site.Crash
import RecordStore.Proofs.Escaping
import RecordStore.Proofs.Table.Escaping
import RecordStore.Proofs.Query.Reading
import RecordStore.Proofs.Query.Escaping
import RecordStore.Proofs.Snapshot.Lossless
import RecordStore.Proofs.Query.Lexemes
import RecordStore.Proofs.Query.Printing
import RecordStore.Proofs.Query.Rereading
import RecordStore.Proofs.Query.Printed
import RecordStore.Proofs.Snapshot.Positions
import RecordStore.Proofs.Query.Grammar
import RecordStore.Proofs.Query.Scanning
import RecordStore.Proofs.Query.Recognizing
import RecordStore.Proofs.Query.Deriving
import RecordStore.Proofs.Query.Parsing
import RecordStore.Proofs.Query.Cutting
import RecordStore.Proofs.Table.Tracking
import RecordStore.Proofs.Table.Merging
import RecordStore.Proofs.Table.Guarding
import RecordStore.Proofs.Table.Updating
import RecordStore.Proofs.Table.Accepting
import RecordStore.Proofs.Table.Deleting
import RecordStore.Proofs.Schema.Ruling
import RecordStore.Proofs.Table.Increment
import RecordStore.Proofs.Table.Resaving
import RecordStore.Proofs.Filter.Wildcard
import RecordStore.Proofs.Filter.Suiting
import RecordStore.Proofs.Sorting
import RecordStore.Proofs.Value.Order
import RecordStore.Proofs.Query.Ordering
import RecordStore.Proofs.Query.Coherence
import RecordStore.Proofs.Query.Patterns
import RecordStore.Proofs.Query.Covering
import RecordStore.Proofs.Query.Quoting
import RecordStore.Proofs.Index.Pairs
import RecordStore.Proofs.Schema.Forming
import RecordStore.Proofs.Calendar.TimeOfDay
import RecordStore.Proofs.Site.Skipping
import RecordStore.Proofs.Registry.Opening
import RecordStore.Proofs.Registry.Handles
import RecordStore.Proofs.Disk.Making
import RecordStore.Proofs.Registry.Naming
import RecordStore.Proofs.Query.Breaking
import RecordStore.Proofs.Shell.Lines
import RecordStore.Proofs.Table.Rewriting
import RecordStore.Proofs.Table.Repeating
import RecordStore.Proofs.Query.Joining
