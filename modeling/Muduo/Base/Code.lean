import Muduo.Machine.Run

/-!
# Faults and error numbers

`Fault` lists the assertions of the modelled sources, under the function that makes them, the system
calls whose failure ends the process, and the uses of memory that a debug build would not even
diagnose. `Code α` is a piece of the library's code that yields an `α` or runs into one of them.
-/

namespace Muduo

open Machine

inductive Fault where
  -- Buffer.h
  | bufferRetrieve
  | bufferEnsureWritable
  | bufferHasWritten
  | bufferMakeSpaceFront
  | bufferMakeSpaceReadable
  | bufferPrepend
  | bufferUnwrite
  | bufferPeekInt
  | bufferOverrun
  -- Channel.cc
  | channelRemove
  | channelDestroyedAdded
  -- poller/EPollPoller.cc
  | epollRemoveUnknown
  | epollRemoveEvents
  | epollUpdateKnown
  | epollUpdateUnknown
  | epollUpdateOther
  | epollUpdateIndex
  | epollRemoveOther
  | epollRemoveIndex
  | epollCtl
  | epollFillSize
  | epollFillUnknown
  | epollFillOther
  -- poller/PollPoller.cc
  | pollUpdateKnown
  | pollUpdateUnknown
  | pollUpdateOther
  | pollUpdateIndex
  | pollUpdateFd
  | pollRemoveUnknown
  | pollRemoveOther
  | pollRemoveEvents
  | pollRemoveIndex
  | pollRemoveFd
  | pollRemoveAtEnd
  | pollFillUnknown
  | pollFillFd
  -- TcpConnection.cc
  | sendRemaining
  | connectEstablished
  | handleClose
  -- EventLoop.cc
  | removeChannel
  | loopLooping
  | notInLoopThread
  -- EventLoopThread.cc
  | startLoopStarted
  -- EventLoopThreadPool.cc
  | getNextLoopStarted
  | loopsOverrun
  -- TcpServer.cc
  | removeConnectionErase
  -- TimerQueue.cc
  | timerSizes
  | cancelErase
  | expiredBound
  | expiredErase
  | insertTimers
  | insertActive
  | timerUsedAfterDelete
  | timerDeletedTwice
  -- Connector.cc
  | startInLoop
  | connecting
  | connectorHandleWrite
  | connectorNullChannel
  -- base/AsyncLogging.cc
  | loggerRunning
  | loggerNewBuffer1
  | loggerNewBuffer2
  | loggerBuffersLeft
  | loggerNothingToWrite
  | loggerNoSpareBuffer
  | loggerNullBuffer
  -- base/ThreadPool.cc
  | threadPoolFull
  -- base/BlockingQueue.h, base/BoundedBlockingQueue.h
  | takeEmpty
  | putFull
  -- base/Thread.cc
  | threadStarted
  | threadTid
  | threadJoinStarted
  | threadJoined
  | threadDestroyed
  -- http/HttpRequest.h
  | setMethodTwice
  -- sudoku/sudoku.cc
  | puzzleSize
  | columnAppended
  | columnMissing
  | nodesExhausted
  -- sudoku/stat.h
  | statSizes
  | statIndex
  | statBack
  | statDiscard
  -- memcached/server/Item.cc
  | itemValueLen
  | itemTotalLen
  | itemAppend
  | itemResetKey
  -- memcached/server/MemcacheServer.cc
  | storeNeeded
  | storeNewNeeded
  | storeNewCRLF
  | storePolicy
  | sessionNew
  | sessionKnown
  -- memcached/server/Session.cc
  | requestLength
  | processRequestReset
  | receiveValueItem
  | receiveValueState
  | discardValueItem
  | discardValueState
  | doUpdatePolicy
  | tokenPastEnd
  -- base/Date.cc
  | dateOverflow
  -- base/LogFile.cc
  | logFileNull
  -- base/TimeZone.cc
  | zoneReadBytes
  | zoneTransIdx
  | zoneLocaltimeIdx
  | zoneLocaltimeFront
  | zoneTransitionBegin
  | zoneData
  | zoneAbbreviation
  -- base/LogStream.cc
  | fmtLength
  | logBufferOverrun
  -- base/Logging.cc
  | logTextLength
  | logTimeLength
  | logMicrosecondsLength
  | logLevelName
  -- protorpc/muduo_protobuf_codec/ProtobufCodecLite.cc
  | fillNonemptyBuffer
  | fillLength
  | serializeInitialized
  | serializeIntSize
  | serializeByteSize
  -- protorpc/RpcChannel.cc
  | rpcResponse
  -- protobuf/codec/codec.cc
  | codecFillNonempty
  | codecNameLength
  | codecInitialized
  | codecIntSize
  | codecByteSize
  | codecFillLength
  | codecOverrun
  -- protobuf/rpcbalancer/balancer.cc
  | balancerSend
  | balancerBackend
  -- fastcgi/fastcgi.cc
  | fastcgiBeginLength
  | fastcgiBeginType
  -- net/ZlibStream.h
  | zlibNextIn
  | zlibInput
  -- asio/chat/server_threaded_efficient.cc
  | connectionsShared
  -- a loop that is still running
  | outOfFuel
  deriving DecidableEq, Repr

abbrev Code (α : Type) := Exec Fault α

/-- The values of `errno` that the modelled functions tell apart. `EWOULDBLOCK` is `EAGAIN`. -/
inductive Errno where
  | EAGAIN | EPIPE | ECONNRESET
  | EINPROGRESS | EINTR | EISCONN
  | EADDRINUSE | EADDRNOTAVAIL | ECONNREFUSED | ENETUNREACH
  | EACCES | EPERM | EAFNOSUPPORT | EALREADY | EBADF | EFAULT | ENOTSOCK
  | other (code : ℕ)
  deriving DecidableEq, Repr

end Muduo
