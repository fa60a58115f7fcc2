import Walkrie.Library.Transition
import Walkrie.Library.Reader
import Walkrie.Library.Assoc
import Walkrie.Library.Table
import Walkrie.Library.Replay
import Walkrie.Library.Sql
import Walkrie.Library.Prepared
import Walkrie.Library.Lru
import Walkrie.Library.Hexadecimal
import Walkrie.Library.Json
import Walkrie.Library.Loop
import Walkrie.Library.Conninfo
import Walkrie.Library.Quoting
import Walkrie.Library.Comparison
import Walkrie.Library.Fifo
import Walkrie.Library.Bits
import Walkrie.Library.Circular
import Walkrie.Event
import Walkrie.Dispatcher.Machine
import Walkrie.Dispatcher.Trace
import Walkrie.Dispatcher.Delivery
import Walkrie.Dispatcher.Stall
import Walkrie.Dispatcher.Confirm
import Walkrie.Dispatcher.Report
import Walkrie.Dispatcher.Accept
import Walkrie.Dispatcher.Size
import Walkrie.Sink.Configuration
import Walkrie.Sink.Plan
import Walkrie.Sink.CallBatch
import Walkrie.Sink.Durable
import Walkrie.Sink.Content
import Walkrie.Sink.PointId
import Walkrie.Sink.Records
import Walkrie.Sink.Recovery
import Walkrie.Sink.Live
import Walkrie.Sink.Rekey
import Walkrie.Sink.Batching
import Walkrie.Sink.SqlBuilder
import Walkrie.Sink.Isolation
import Walkrie.Sink.Representation
import Walkrie.Sink.Metadata
import Walkrie.Sink.SqlText
import Walkrie.Sink.Accepted
import Walkrie.Sink.Document
import Walkrie.Sink.Filter
import Walkrie.Sink.JsonLines
import Walkrie.Wire.ByteUtils
import Walkrie.Wire.PgOutput
import Walkrie.Wire.Frame
import Walkrie.Wire.Format
import Walkrie.Wire.Decode
import Walkrie.Wire.Bounds
import Walkrie.Wire.Lsn
import Walkrie.Backfill.Store
import Walkrie.Backfill.Util
import Walkrie.Backfill.Worker
import Walkrie.Backfill.History
import Walkrie.Backfill.Reconcile
import Walkrie.Backfill.Converge
import Walkrie.Backfill.Serialize
import Walkrie.Backfill.Race
import Walkrie.Backfill.LostUpdate
import Walkrie.Backfill.LiveInsert
import Walkrie.Backfill.Resurrect
import Walkrie.Backfill.Resume
import Walkrie.Backfill.Fanout
import Walkrie.Backfill.Drain
import Walkrie.Backfill.Sharing
import Walkrie.Backfill.Faults
import Walkrie.Backfill.Overlay
import Walkrie.Backfill.Termination
import Walkrie.Backfill.BestEffort
import Walkrie.Provider.Cache
import Walkrie.Provider.Session
import Walkrie.Provider.Failure
import Walkrie.Provider.Llama
import Walkrie.Provider.Packing
import Walkrie.Provider.Chunks
import Walkrie.Provider.OpenAi
import Walkrie.Provider.Reuse
import Walkrie.Config.App
import Walkrie.Config.BatchSize
import Walkrie.Config.PgSink
import Walkrie.Config.Conninfo
import Walkrie.Queue.Block
import Walkrie.Queue.ReaderWriter
import Walkrie.Queue.Invariant
import Walkrie.Queue.Produce
import Walkrie.Queue.Consume
import Walkrie.Queue.Linear
import Walkrie.Queue.Blocking
import Walkrie.Queue.Handover
import Walkrie.Dispatcher.Threaded
import Walkrie.Dispatcher.Retry
import Walkrie.Pipeline.Feed
import Walkrie.Pipeline.Session
import Walkrie.Lifecycle.Manager
import Walkrie.Lifecycle.Startup
