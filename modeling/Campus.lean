import Campus.Memory
import Campus.Main
import Campus.Proofs.Archive.Coherence
import Campus.Proofs.Query.Acceptance
import Campus.Proofs.Query.Execution
import Campus.Proofs.Registry.Counting
import Campus.Proofs.Registry.Failure
import Campus.Proofs.Query.Rows
import Campus.Proofs.Archive.Answers
import Campus.Proofs.Json.Printing
import Campus.Proofs.Text.Lines
import Campus.Proofs.Request.Serving
import Campus.Proofs.Archive.Refinement
import Campus.Proofs.Disk.Frame
import Campus.Proofs.Query.Locality
import Campus.Proofs.Registry.Isolation
import Campus.Proofs.Archive.Isolation
import Campus.Proofs.Registry.Mirror
import Campus.Proofs.Archive.Restart
import Campus.Proofs.Registry.Removal
import Campus.Proofs.RoomOrder
import Campus.Proofs.Archive.ScanOrder
import Campus.Proofs.Scalar
import Campus.Proofs.Number.Comparison
import Campus.Proofs.Number.Integers
import Campus.Proofs.Grouping.Partition
import Campus.Proofs.Grouping.Aggregates
import Campus.Proofs.Grouping.Answer
import Campus.Proofs.Request.RowsText
import Campus.Proofs.Engine.Accounting
import Campus.Proofs.Disk.Reordered
import Campus.Proofs.Registry.ListingOrder
import Campus.Proofs.Archive.ListingOrder
import Campus.Proofs.Order
import Campus.Proofs.Grouping.AnyOrder
import Campus.Proofs.Grouping.Mean
import Campus.Proofs.Order.Agreement
import Campus.Proofs.Pattern.Glob
import Campus.Proofs.Normalization
import Campus.Proofs.Filter.Trichotomy
import Campus.Proofs.Query.FieldsRead
import Campus.Proofs.Archive.GroupedColumns
import Campus.Proofs.Query.MemberOrder
import Campus.Proofs.Scan.Accounting
import Campus.Proofs.Query.Addressing
import Campus.Proofs.Query.Mentioning
import Campus.Proofs.Log
import Campus.Proofs.Grouping.FloatRounding
