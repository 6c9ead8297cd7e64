import RecentMessages.Library.KeyTable
import RecentMessages.Library.IndexedList
import RecentMessages.Library.Fallible
import RecentMessages.Library.Watermark
import RecentMessages.Library.WriteAheadLog
import RecentMessages.Library.Runs
import RecentMessages.Storage.Acknowledgement
import RecentMessages.Storage.AppendSpec
import RecentMessages.Storage.Maintenance
import RecentMessages.Storage.Accounting
import RecentMessages.Storage.OpenBlocks
import RecentMessages.Storage.Ingest
import RecentMessages.Storage.Flow
import RecentMessages.Storage.Conservation
import RecentMessages.Storage.Policy
import RecentMessages.Storage.Durability
import RecentMessages.Storage.CatchUp
import RecentMessages.Web.Query
import RecentMessages.Control.ControlStore
import RecentMessages.Web.Node
import RecentMessages.Web.Purge
import RecentMessages.Web.OptOut
import RecentMessages.Web.Circuit
import RecentMessages.Storage.Retention
import RecentMessages.Storage.Pressure
import RecentMessages.Storage.Fidelity
import RecentMessages.Storage.Appends
import RecentMessages.Web.LaterMessages
import RecentMessages.Control.Cluster
import RecentMessages.Control.Replication
import RecentMessages.Control.Push
import RecentMessages.Web.AppliedPolicies
import RecentMessages.Web.Sessions
import RecentMessages.Control.Coverage
import RecentMessages.Web.Completeness
import RecentMessages.Web.Peer
import RecentMessages.Library.Ranking
import RecentMessages.Storage.Placement
import RecentMessages.Library.Condense
import RecentMessages.Web.Merging
import RecentMessages.Web.SessionUpdates
import RecentMessages.Web.ResponseCache
import RecentMessages.Web.Serving
import RecentMessages.Web.StaleHits
import RecentMessages.Library.Lockstep
import RecentMessages.Control.Pinning
import RecentMessages.Storage.Runtime
import RecentMessages.Web.Shutdown
import RecentMessages.Storage.DirectIrc
import RecentMessages.Control.IrcListener
import RecentMessages.Web.Backing
import RecentMessages.Library.Dedup
import RecentMessages.Library.Queues
import RecentMessages.Storage.MessageStore
import RecentMessages.Storage.Memory
import RecentMessages.Storage.Segment
import RecentMessages.Storage.SqliteQueues
import RecentMessages.Storage.Agreement
import RecentMessages.Library.Quota
import RecentMessages.Storage.EvictionPlan
import RecentMessages.Storage.Enforcement
import RecentMessages.Storage.Epochs
import RecentMessages.Storage.OpenLimits
import RecentMessages.Control.Gaps
import RecentMessages.Web.RepairState
import RecentMessages.Library.Framing
import RecentMessages.Storage.EventIdentity
import RecentMessages.Library.Ledger
import RecentMessages.Storage.Ledgers
import RecentMessages.Storage.TightRetention
import RecentMessages.Library.Escaping
import RecentMessages.Library.Utf16
import RecentMessages.Library.Marking
import RecentMessages.Web.MessageExport
import RecentMessages.Web.Viewer
import RecentMessages.Control.LiveCoverage
import RecentMessages.Library.Batching
import RecentMessages.Storage.SourceStreams
import RecentMessages.Library.Extents
import RecentMessages.Library.Outcomes
import RecentMessages.Storage.SegmentFile
import RecentMessages.Storage.SegmentRefinement
import RecentMessages.Storage.Expiry
import RecentMessages.Control.JoinState
import RecentMessages.Control.JoinRuns
import RecentMessages.Library.Fifo
import RecentMessages.Web.CacheRuns
import RecentMessages.Web.ViewerBadges
import RecentMessages.Library.Ranges
import RecentMessages.Control.MergedRanges
import RecentMessages.Storage.OpenCounters
import RecentMessages.Library.Serial
import RecentMessages.Storage.SqliteAsync
import RecentMessages.Web.StoreReaders
import RecentMessages.Control.RepairCheckpoints
import RecentMessages.Control.JoinParter
import RecentMessages.Web.RepairJobs
import RecentMessages.Storage.RawFirehose
import RecentMessages.Web.RecentHandler
import RecentMessages.Library.Cascade
import RecentMessages.Web.Routing
