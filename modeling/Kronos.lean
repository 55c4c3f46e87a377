import Kronos.Types
import Kronos.Journal
import Kronos.JournalProperties
import Kronos.Common.Decimal
import Kronos.Hex
import Kronos.FromChars
import Kronos.Wal.Codec
import Kronos.Wal.Recover
import Kronos.Common.Separated
import Kronos.Wal.CodecProperties
import Kronos.Wal.RecoverProperties
import Kronos.Wal.Append
import Kronos.Wal.AppendProperties
import Kronos.DurableSpecs
import Kronos.Wal.GluedLines
import Kronos.Wal.Durability
import Kronos.Scheduler
import Kronos.TaskQueue
import Kronos.OrderedQueue
import Kronos.Task
import Kronos.ExampleTasks
import Kronos.TaskFactory
import Kronos.Engine.Record
import Kronos.Engine.RecordProperties
import Kronos.Engine.State
import Kronos.Engine.Step
import Kronos.Common.Reaches
import Kronos.Common.Total
import Kronos.Engine.Transition
import Kronos.Engine.RegistryProperties
import Kronos.Engine.Carriers
import Kronos.Engine.CarriersProperties
import Kronos.Engine.SingleCarrier
import Kronos.Engine.Handles
import Kronos.Engine.Publication
import Kronos.Engine.JournalAgreement
import Kronos.Engine.Stages
import Kronos.Engine.Closing
import Kronos.Engine.Shutdown
import Kronos.Common.Halting
import Kronos.Slicing
import Kronos.SliceResults
import Kronos.Engine.Client
import Kronos.Engine.Determinism
import Kronos.JournalGrowth
import Kronos.Engine.Growth
import Kronos.Engine.Numbering
import Kronos.Engine.Submissions
import Kronos.Engine.Journaled
import Kronos.Daemon.Lifetime
import Kronos.Daemon.World
import Kronos.Daemon.LifetimeProperties
import Kronos.Daemon.Recovery
import Kronos.Ipc.Protocol
import Kronos.Ipc.ProtocolProperties
import Kronos.Ipc.MessageSyntax
import Kronos.Common.Ranged
import Kronos.Ipc.IndexedDecode
import Kronos.Ipc.GluedMessages
import Kronos.Ipc.Fifo
import Kronos.Ipc.FifoProperties
import Kronos.Ipc.Delivery
import Kronos.Ipc.Exchange
import Kronos.Ipc.Pairing
import Kronos.Ipc.Command
import Kronos.Ipc.CommandProperties
import Kronos.Ipc.SizeLimit
import Kronos.Wal.Checksum
import Kronos.Wal.LineSyntax
import Kronos.Wal.Corruption
import Kronos.Wal.IndexedRecover
import Kronos.Wal.ArbitraryContents
import Kronos.Common.Traces
import Kronos.Common.Handout
import Kronos.Engine.Requeueing
import Kronos.Engine.Cancellation
import Kronos.Engine.RegistryGrowth
import Kronos.Engine.Rejection
import Kronos.Common.Drawn
import Kronos.Engine.Identities
import Kronos.Daemon.Requests
import Kronos.Daemon.Replies
import Kronos.Common.Rest
import Kronos.Ending
import Kronos.Engine.Ending
import Kronos.Engine.Wakeups
import Kronos.Engine.Rest
import Kronos.Ipc.Directory
import Kronos.Ipc.DirectoryMoves
import Kronos.Ipc.DirectoryShape
import Kronos.Ipc.DirectoryLock
import Kronos.Ipc.DirectoryFifos
import Kronos.Ipc.DirectoryProperties
import Kronos.Ipc.DirectoryRestart
import Kronos.Engine.Tracking
import Kronos.Daemon.Following
import Kronos.Daemon.History
import Kronos.Engine.Owners
import Kronos.Daemon.Running
import Kronos.Daemon.RunningMoves
import Kronos.Daemon.RunningProperties
import Kronos.Daemon.Announcements
import Kronos.IndexedHex
