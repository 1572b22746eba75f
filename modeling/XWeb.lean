import XWeb.Base.AsyncLoggingStop
import XWeb.Base.AsyncLoggingSpares
import XWeb.Net.BufferInt
import XWeb.Base.RioLines
import XWeb.Net.OutputStream
import XWeb.Net.ConnectionLifetime
import XWeb.Net.Readiness
import XWeb.Net.Registry
import XWeb.Net.ConnectionMap
import XWeb.Net.Teardown
import XWeb.Net.Callbacks
import XWeb.Net.SharedConnection
import XWeb.Net.LifeCycle
import XWeb.Net.HalfClose
import XWeb.Net.BufferBound
import XWeb.Net.TimerSchedule
import XWeb.Net.KqueuePoller
import XWeb.Net.KqueueFilters
import XWeb.Net.KqueueReadiness
import XWeb.Base.RioAhead
import XWeb.Net.HttpData
import XWeb.Net.HttpRequests
import XWeb.Net.CancelFinal
import XWeb.Net.Quit
import XWeb.Net.Descriptors
import XWeb.Lib.CivilDate
import XWeb.Base.LogFile
import XWeb.Base.LogFileSize
import XWeb.Base.LogFileDays
import XWeb.Base.StringPiece
import XWeb.Net.BufferShrink
import XWeb.Net.SendPaths
import XWeb.Net.CallbackDepth
import XWeb.Base.RioTransfer
import XWeb.Base.RioLength
import XWeb.Net.HttpHeaders
import XWeb.Net.HttpErrors
import XWeb.Net.ServeStatic
import XWeb.Net.ServeStaticEnd
import XWeb.Lib.WrappingIds
import XWeb.Net.TimerIds
import XWeb.Base.LogFileLock
import XWeb.Base.CountDownLatch
import XWeb.Net.LoopRegistration
import XWeb.Base.AppendFile
import XWeb.Base.Logger
import XWeb.Base.LogStream
import XWeb.Base.LogFileOrder
import XWeb.Base.LogPipeline
import XWeb.Base.LogProgram
import XWeb.Net.HttpConnection
import XWeb.Net.HttpResponses
import XWeb.Net.KqueueLoop
import XWeb.Net.EventLoopThread
import XWeb.Net.HttpServer
import XWeb.Lib.Framing
import XWeb.Net.InputStream
import XWeb.Net.Conversation
import XWeb.Net.BufferSearch
import XWeb.Net.Senders
import XWeb.Base.StringPieceOrder
import XWeb.Net.TimerService
import XWeb.Net.Network
