import Muduo.ActiveChannels
import Muduo.AppendedBeforeStop
import Muduo.AsyncBuffers
import Muduo.AsyncLogging
import Muduo.BoundedBlockingQueue
import Muduo.BufferIntegers
import Muduo.BufferQueue
import Muduo.ConnectionNames
import Muduo.Connector
import Muduo.ConnectorSockets
import Muduo.EPollMirror
import Muduo.EventLoopThread
import Muduo.Examples.ChatServer
import Muduo.Examples.DancingLinks
import Muduo.Examples.DemuxServer
import Muduo.Examples.PubSubServer
import Muduo.Examples.SharedConnectionList
import Muduo.Examples.SudokuGrid
import Muduo.Examples.TimingWheel
import Muduo.GracefulShutdown
import Muduo.HttpAnswers
import Muduo.HttpGrammar
import Muduo.HttpRoundTrip
import Muduo.Inspector
import Muduo.IntegerRendering
import Muduo.LocalTime
import Muduo.LogFile
import Muduo.LogFileNames
import Muduo.LogHeaders
import Muduo.LogStream
import Muduo.LogTrailer
import Muduo.Logging
import Muduo.PollIndex
import Muduo.PollerEquivalence
import Muduo.QueuedBeforeQuit
import Muduo.QueuedWork
import Muduo.RpcChannel
import Muduo.RpcFraming
import Muduo.ThreadPool
import Muduo.TimerArming
import Muduo.TimerSchedule
import Muduo.TimerSets
import Muduo.TimerThreads
import Muduo.WriteNotifications
import Muduo.ZoneFile
