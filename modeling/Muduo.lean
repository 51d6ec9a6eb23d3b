import Muduo.Execution
import Muduo.Buffer
import Muduo.Channel
import Muduo.EventLoop
import Muduo.TcpConnection
import Muduo.TcpConnectionEffects
import Muduo.TcpConnectionOutput
import Muduo.TcpConnectionTurns
import Muduo.TcpConnectionTeardown
import Muduo.TcpConnectionCallbacks
import Muduo.TcpConnectionShutdown
import Muduo.OrderedSet
import Muduo.TimerQueue
import Muduo.TimerQueueOwnership
import Muduo.TimerQueueSteps
import Muduo.TimerQueueRuns
import Muduo.TimerQueueCancel
import Muduo.TimerQueueAlarm
import Muduo.TimerQueueThreads
import Muduo.EventLoopRuns
import Muduo.EventLoopThread
import Muduo.Poller
import Muduo.PollPoller
import Muduo.PollerHistories
import Muduo.BufferSequences
import Muduo.Framing
import Muduo.ProtobufCodecLite
import Muduo.ProtobufCodecStreams
import Muduo.RpcChannel
import Muduo.RpcDialogue
import Muduo.RpcDialogueRuns
import Muduo.RpcAgreement
import Muduo.RpcOwnership
import Muduo.RpcSafety
import Muduo.FramingMachine
import Muduo.HttpContext
import Muduo.HttpChunks
import Muduo.HttpGrammar
import Muduo.HttpServer
import Muduo.AsyncLogging
import Muduo.AsyncLoggingStop
import Muduo.Decimal
import Muduo.TcpServer
import Muduo.TcpServerRegistry
import Muduo.TcpServerTeardown
import Muduo.TcpServerJoin
import Muduo.AsyncLoggingBuffers
import Muduo.BufferReadFd
import Muduo.TimerQueueRounds
import Muduo.BoundedBlockingQueue
import Muduo.ThreadPool
import Muduo.EventLoopDispatch
import Muduo.Connector
import Muduo.ConnectorSockets
import Muduo.ConnectorAttempts
import Muduo.TcpClient
import Muduo.TcpClientLifetime
import Muduo.TcpClientReconnect
import Muduo.BufferIntegers
import Muduo.BufferShrink
import Muduo.ProtobufCodecLimits
import Muduo.HttpTermination
import Muduo.TcpConnectionNotices
import Muduo.HttpExchange
import Muduo.Codec
import Muduo.HttpResponse
import Muduo.CheckedInt
import Muduo.Date
import Muduo.TimeZoneUtc
import Muduo.LowerBound
import Muduo.TimeZone
import Muduo.Inspector
import Muduo.TimeZoneFile
import Muduo.FileUtil
import Muduo.Gmtime
import Muduo.LogFile
import Muduo.Memory
import Muduo.LogConvert
import Muduo.LogStream
import Muduo.LogTime
import Muduo.Logging
import Muduo.Compressor
import Muduo.ZlibStream
import Muduo.Rounding
import Muduo.FixedPoint
import Muduo.FormatSI
import Muduo.MutexLock
import Muduo.CountDownLatch
import Muduo.Thread
import Muduo.AsyncLoggingFiles
import Muduo.LogFileNames
import Muduo.TcpServerSpread
