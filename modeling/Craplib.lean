import Craplib.Lib.Runs
import Craplib.Lib.Slots
import Craplib.Lib.Effects
import Craplib.Lib.SortedMap
import Craplib.Lib.Incremental
import Craplib.Lib.Arena
import Craplib.Lib.Histories
import Craplib.Lib.LowerBound
import Craplib.Lib.Deadlines
import Craplib.Lib.Mailbox
import Craplib.Lib.Weights
import Craplib.Lib.Conservation
import Craplib.Lib.Comparators
import Craplib.Threads.CondVar
import Craplib.Threads.CondLock
import Craplib.Threads.OneWaiter
import Craplib.Memory.Pointers
import Craplib.Memory.Ledger
import Craplib.Memory.Accounting
import Craplib.Memory.ConcurrentLock
import Craplib.Memory.StaticRefCounted
import Craplib.Data.Handles
import Craplib.Data.Placement
import Craplib.Data.Isolation
import Craplib.Data.Fifo
import Craplib.Data.InPlace
import Craplib.Data.EmptyReads
import Craplib.Data.Compare
import Craplib.Data.Windows
import Craplib.Data.NewBuffer
import Craplib.Data.Deletion
import Craplib.Stream.Contract
import Craplib.Stream.FileReader
import Craplib.Stream.WholeFile
import Craplib.Stream.Bridge
import Craplib.Stream.Upload
import Craplib.Stream.SslEngine
import Craplib.Stream.SecureLink
import Craplib.Http.Streams
import Craplib.Http.HeadersParser
import Craplib.Http.HeaderLines
import Craplib.Http.Chunking
import Craplib.Http.Lines
import Craplib.Http.HeadersWriter
import Craplib.Http.HeaderBlocks
import Craplib.Http.Folding
import Craplib.Http.Limit
import Craplib.Http.RoundTrip
import Craplib.Http.ResponseLine
import Craplib.Http.Request
import Craplib.Http.Pipeline
import Craplib.Http.ReadEdge
import Craplib.Http.Callbacks
import Craplib.Http.Segments
import Craplib.Http.Requests
import Craplib.Socket.Descriptors
import Craplib.Socket.Accept
import Craplib.Socket.EpollWorker
import Craplib.Socket.EpollSteps
import Craplib.Socket.EpollDispatch
import Craplib.Socket.EpollProgress
import Craplib.Socket.EpollCalls
import Craplib.Socket.EpollReadable
import Craplib.Socket.EpollRegistered
import Craplib.Socket.EpollLifetime
import Craplib.Socket.EpollShutdown
import Craplib.Socket.KqueueWorker
import Craplib.Socket.KqueueSteps
import Craplib.Socket.KqueueAsEpoll
import Craplib.Socket.KqueueCalls
import Craplib.Socket.KqueueLive
import Craplib.Socket.SelectWorker
import Craplib.Socket.SelectSteps
import Craplib.Socket.SelectDispatch
import Craplib.Socket.SelectWatch
import Craplib.Socket.SelectShutdown
import Craplib.Resolver.Pool
import Craplib.Resolver.Steps
import Craplib.Resolver.Invariant
import Craplib.Resolver.Callbacks
import Craplib.Resolver.Results
import Craplib.Resolver.Accounting
import Craplib.Resolver.Stranding
import Craplib.Resolver.Shutdown
import Craplib.Resolver.Joining
import Craplib.Resolver.Conditions
import Craplib.Resolver.Ownership
import Craplib.Resolver.WorkQueue
import Craplib.RunLoop.Timers
import Craplib.RunLoop.TimerSteps
import Craplib.RunLoop.TimerDeadlines
import Craplib.RunLoop.DueTimers
import Craplib.RunLoop.TimerThreads
import Craplib.RunLoop.FileReaders
import Craplib.RunLoop.Messages
import Craplib.RunLoop.LoopCondition
import Craplib.RunLoop.Blocking
import Craplib.RunLoop.HandOff
import Craplib.RunLoop.MessageSteps
import Craplib.RunLoop.MessageRuns
import Craplib.RunLoop.Counting
import Craplib.RunLoop.Waits
import Craplib.Net.Interface
import Craplib.Net.Enumeration
import Craplib.Net.EnumerationSteps
import Craplib.Net.EnumerationRuns
import Craplib.Net.Teardown
