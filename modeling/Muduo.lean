import Muduo.Base.AsyncLogging.Recycling
import Muduo.Base.AsyncLogging.Stop
import Muduo.Base.BlockingQueue
import Muduo.Base.LogFile
import Muduo.Base.LogStream.Raw
import Muduo.Base.Logging.TimeCache
import Muduo.Base.Thread
import Muduo.Base.ThreadPool
import Muduo.Base.TimeZone.Local
import Muduo.Base.TimeZone.Utc
import Muduo.Base.TimeZone.ZoneFile
import Muduo.Chat.Broadcast
import Muduo.Fastcgi.Request
import Muduo.Fastcgi.Respond
import Muduo.Http.Connection
import Muduo.Http.Grammar
import Muduo.Http.KeepAlive
import Muduo.Http.Parser
import Muduo.Http.Response
import Muduo.Memcached.DeclaredLength
import Muduo.Memcached.GetReplies
import Muduo.Memcached.Noreply
import Muduo.Memcached.Swap
import Muduo.Memcached.ValueLimit
import Muduo.Net.Buffer.Queue
import Muduo.Net.Buffer.ReadFd
import Muduo.Net.Connector.Ownership
import Muduo.Net.EventLoopThread
import Muduo.Net.Poller.Kernel
import Muduo.Net.Poller.PollArray
import Muduo.Net.TcpConnection.Destroy
import Muduo.Net.TcpConnection.Shutdown
import Muduo.Net.TcpConnection.Stream
import Muduo.Net.TcpServer
import Muduo.Net.TimerQueue.Expiry
import Muduo.Net.ZlibStream
import Muduo.ProtobufCodec.Corruption
import Muduo.Protorpc.Completion
import Muduo.Rpcbalancer.FastPath
import Muduo.Rpcbalancer.Routing
import Muduo.Sudoku.Grid
import Muduo.Sudoku.Stat
import Muduo.Sudoku.Undo
