import RecordStore.Aggregate.GroupKey
import RecordStore.Aggregate.Outcome
import RecordStore.Aggregate.Request
import RecordStore.Aggregate.Run
import RecordStore.Aggregate.Spec
import RecordStore.Aggregate.Statistics
import RecordStore.Collection.Aggregate
import RecordStore.Collection.Basic
import RecordStore.Collection.Document
import RecordStore.Collection.Filter
import RecordStore.Collection.Find
import RecordStore.Collection.Paging
import RecordStore.Collection.Remote
import RecordStore.Collection.Store
import RecordStore.Collection.Update
import RecordStore.Collection.Write
import RecordStore.DriverError
import RecordStore.Fault
import RecordStore.Hooks
import RecordStore.Json.Printer
import RecordStore.Json.Reader
import RecordStore.Number.Basic
import RecordStore.Number.Binary64
import RecordStore.Number.Decimal
import RecordStore.Options.Basic
import RecordStore.Options.Reading
import RecordStore.Options.Settings
import RecordStore.Proofs.Actions
import RecordStore.Proofs.ArrivalOrder
import RecordStore.Proofs.BatchStatistics
import RecordStore.Proofs.Bracketing
import RecordStore.Proofs.Calendar
import RecordStore.Proofs.CalendarBuckets
import RecordStore.Proofs.CallEndings
import RecordStore.Proofs.CanonicalText
import RecordStore.Proofs.ClauseOrder
import RecordStore.Proofs.Deliveries
import RecordStore.Proofs.DrillDown
import RecordStore.Proofs.DriverFailures
import RecordStore.Proofs.EarlyClose
import RecordStore.Proofs.FilterAgreement
import RecordStore.Proofs.FilterOperators
import RecordStore.Proofs.FrozenKeys
import RecordStore.Proofs.Grouping
import RecordStore.Proofs.IntervalBuckets
import RecordStore.Proofs.Inversion
import RecordStore.Proofs.KeyUniqueness
import RecordStore.Proofs.JoinedPaths
import RecordStore.Proofs.KeyWrites
import RecordStore.Proofs.Listeners
import RecordStore.Proofs.Matching
import RecordStore.Proofs.MissingDatabase
import RecordStore.Proofs.Pages
import RecordStore.Proofs.Projection
import RecordStore.Proofs.RangeLookup
import RecordStore.Proofs.RangeOrder
import RecordStore.Proofs.ReadBack
import RecordStore.Proofs.RecordFaults
import RecordStore.Proofs.Release
import RecordStore.Proofs.RequestFaults
import RecordStore.Proofs.Requests
import RecordStore.Proofs.SeparateClauses
import RecordStore.Proofs.ShortForms
import RecordStore.Proofs.SingleWrites
import RecordStore.Proofs.SortLists
import RecordStore.Proofs.SortedGroups
import RecordStore.Proofs.StableOrder
import RecordStore.Proofs.StatsResults
import RecordStore.Proofs.StatsSections
import RecordStore.Proofs.StoreKeys
import RecordStore.Proofs.StoredDocuments
import RecordStore.Proofs.StreamLifecycle
import RecordStore.Proofs.TimeOrder
import RecordStore.Proofs.TimestampRoundTrip
import RecordStore.Proofs.UpdateAtomicity
import RecordStore.Proofs.UpsertBranches
import RecordStore.Proofs.ValueEquality
import RecordStore.Proofs.WireForm
import RecordStore.Sorting.Insertion
import RecordStore.Sorting.Merge
import RecordStore.Sorting.Runs
import RecordStore.Source
import RecordStore.Stream
import RecordStore.Text.Blank
import RecordStore.Text.Cased
import RecordStore.Text.Digit
import RecordStore.Text.Lowercase
import RecordStore.Text.Printable
import RecordStore.Text.Quoted
import RecordStore.Text.Split
import RecordStore.Time.Bucket
import RecordStore.Time.Calendar
import RecordStore.Time.Elapsed
import RecordStore.Time.Fault
import RecordStore.Time.Instant
import RecordStore.Time.Iso
import RecordStore.Time.Loose
import RecordStore.Time.Reading
import RecordStore.Time.Span
import RecordStore.Value.Basic
import RecordStore.Value.Edit
import RecordStore.Value.Elements
import RecordStore.Value.Equality
import RecordStore.Value.Order
import RecordStore.Value.Path
import RecordStore.Value.Scatter
import RecordStore.Value.Sort
import RecordStore.Value.Text
import RecordStore.Value.Time
