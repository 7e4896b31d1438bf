import TomAgent.Authenv.Envelope
import TomAgent.Authenv.NonceCache
import TomAgent.Authenv.NonceRefinement
import TomAgent.Connector.Bootstrap
import TomAgent.Connector.Cancelling
import TomAgent.Connector.Capacity
import TomAgent.Connector.CrashSafety
import TomAgent.Connector.Expiry
import TomAgent.Connector.Fencing
import TomAgent.Connector.Identity
import TomAgent.Connector.Isolation
import TomAgent.Connector.Mailbox
import TomAgent.Connector.MailboxHeap
import TomAgent.Connector.MailboxRuns
import TomAgent.Connector.Node
import TomAgent.Connector.OutboxDelivery
import TomAgent.Connector.Records
import TomAgent.Connector.Redelivery
import TomAgent.Connector.Rotation
import TomAgent.Connector.Server
import TomAgent.Connector.Session
import TomAgent.Connector.Signing
import TomAgent.Connector.StatusOrder
import TomAgent.Connector.StreamLoss
import TomAgent.Connector.Wakeup
import TomAgent.Console.Api
import TomAgent.Console.Audit
import TomAgent.Console.Calls
import TomAgent.Console.Confirmation
import TomAgent.Console.FirstUser
import TomAgent.Console.Origin
import TomAgent.Console.SecondFactor
import TomAgent.Core.Base64
import TomAgent.Core.Batches
import TomAgent.Core.BigEndian
import TomAgent.Core.Crc32
import TomAgent.Core.Decimal
import TomAgent.Core.Execution
import TomAgent.Core.ExpiringSet
import TomAgent.Core.Fallible
import TomAgent.Core.FileOps
import TomAgent.Core.Filling
import TomAgent.Core.Handoff
import TomAgent.Core.JsonBytes
import TomAgent.Core.JsonText
import TomAgent.Core.Ledger
import TomAgent.Core.LexicalPath
import TomAgent.Core.PrefixCode
import TomAgent.Core.ProtoWire
import TomAgent.Core.Replace
import TomAgent.Core.Replay
import TomAgent.Core.Resend
import TomAgent.Core.Search
import TomAgent.Core.Slice
import TomAgent.Core.Table
import TomAgent.Delivery.EndToEnd
import TomAgent.Delivery.Pipeline
import TomAgent.Executor.Actions
import TomAgent.Executor.Argv
import TomAgent.Executor.Cancellation
import TomAgent.Executor.CappedBuffer
import TomAgent.Executor.Chunking
import TomAgent.Executor.Engine
import TomAgent.Executor.ExecuteOnce
import TomAgent.Executor.Ingress
import TomAgent.Executor.Killing
import TomAgent.Executor.Lifetime
import TomAgent.Executor.Pool
import TomAgent.Executor.PrivateKey
import TomAgent.Executor.Registration
import TomAgent.Executor.Results
import TomAgent.Executor.Substitution
import TomAgent.Executor.Timeouts
import TomAgent.Iam.Credentials
import TomAgent.Iam.Store
import TomAgent.Inventory.Redact
import TomAgent.Metricsbridge.Offsets
import TomAgent.Platform.Backlog
import TomAgent.Platform.Certificates
import TomAgent.Platform.Enrollment
import TomAgent.Platform.EventLog
import TomAgent.Platform.Outbox
import TomAgent.Platform.Payload
import TomAgent.Platform.Store
import TomAgent.Platform.Transactions
import TomAgent.Plugin.Checks
import TomAgent.Plugin.Load
import TomAgent.Plugin.Registered
import TomAgent.Register.Certified
import TomAgent.Register.Enroll
import TomAgent.Register.Lifecycle
import TomAgent.Register.Persist
import TomAgent.Reporter.AtLeastOnce
import TomAgent.Reporter.Deliverable
import TomAgent.Reporter.Fallback
import TomAgent.Reporter.Items
import TomAgent.Reporter.MetricBuffer
import TomAgent.Reporter.MetricPath
import TomAgent.Reporter.MetricReplay
import TomAgent.Reporter.Queue
import TomAgent.Uplink.Call
import TomAgent.Uplink.Handshake
import TomAgent.Uplink.MetricChannels
import TomAgent.Uplink.MetricSoundness
import TomAgent.Uplink.Metrics
import TomAgent.Uplink.ReportChannels
import TomAgent.Uplink.ReportSoundness
import TomAgent.Uplink.Reports
import TomAgent.Uplink.Teardown
import TomAgent.Wal.Crash
import TomAgent.Wal.Damage
import TomAgent.Wal.Delivery
import TomAgent.Wal.Directory
import TomAgent.Wal.Entries
import TomAgent.Wal.FailedAppend
import TomAgent.Wal.Faults
import TomAgent.Wal.History
import TomAgent.Wal.Image
import TomAgent.Wal.Journal
import TomAgent.Wal.Log
import TomAgent.Wal.Position
import TomAgent.Wal.Quota
import TomAgent.Wal.Reader
import TomAgent.Wal.Record
import TomAgent.Wal.Retention
import TomAgent.Wal.Stream
import TomAgent.Wal.Tail
import TomAgent.Wal.Truncated
import TomAgent.Wal.Writer
