import Mysnips.Transition
import Mysnips.Machine
import Mysnips.Memory
import Mysnips.ByteQueue
import Mysnips.ByteQueueFifo
import Mysnips.BuddyAlloc
import Mysnips.DyadicTiling
import Mysnips.PowersOfTwo
import Mysnips.BuddyAllocLists
import Mysnips.BuddyAllocBits
import Mysnips.BuddyAllocStartup
import Mysnips.BuddyAllocSessions
import Mysnips.BuddyAllocCoalescing
import Mysnips.FullPeriod
import Mysnips.HashMap
import Mysnips.OpenAddressing
import Mysnips.HashMapProbe
import Mysnips.HashMapTable
import Mysnips.HashMapRefinement
import Mysnips.HashMapTermination
import Mysnips.GapBuffer
import Mysnips.SelfSynchronizing
import Mysnips.TextCursor
import Mysnips.GapBufferUtf8
import Mysnips.GapBufferText
import Mysnips.GapBufferRefinement
import Mysnips.RingSlots
import Mysnips.MpmcQueue
import Mysnips.MpmcQueueSafety
import Mysnips.SpscQueue
import Mysnips.SpscQueueFifo
import Mysnips.Log
import Mysnips.SpscQueuePeek
import Mysnips.LogRuns
import Mysnips.QueryString
import Mysnips.TcpHandle
import Mysnips.QueryStringRoundTrip
import Mysnips.HttpPath
import Mysnips.HttpStatic
import Mysnips.HttpParse
import Mysnips.HttpServer
import Mysnips.HttpServerRequest
import Mysnips.HttpServerSteps
import Mysnips.HttpServerClients
import Mysnips.HttpServerHandles
import Mysnips.HttpServerQueue
import Mysnips.HttpServerTable
import Mysnips.HttpServerConnections
import Mysnips.HttpServerResponse
import Mysnips.StreamCutting
import Mysnips.HttpServerDelivery
import Mysnips.CrlfLines
import Mysnips.HttpServerHeaders
import Mysnips.SpmcQueue
import Mysnips.SinglyLinked
import Mysnips.Custody
import Mysnips.ThreadPoolFreeList
import Mysnips.Totals
import Mysnips.ThreadPoolQueue
import Mysnips.PoolAlloc
import Mysnips.Tcp
import Mysnips.TcpSteps
import Mysnips.TcpOccupancy
import Mysnips.TcpClose
import Mysnips.TcpClientHandles
import Mysnips.AsyncIo
import Mysnips.AsyncIoHandles
import Mysnips.AsyncIoSteps
import Mysnips.AsyncIoAccept
import Mysnips.AsyncIoRing
import Mysnips.AsyncIoBookkeeping
import Mysnips.HashMapLocking
import Mysnips.PoolAllocPages
import Mysnips.Semaphore
import Mysnips.LogAccounts
import Mysnips.BuddyAllocExhaustion
import Mysnips.BuddyAllocInvalid
import Mysnips.GapBufferLines
import Mysnips.GapBufferRelocate
import Mysnips.GapBufferRunes
import Mysnips.HttpFraming
import Mysnips.HttpHeadLines
import Mysnips.HttpCodings
import Mysnips.HttpLookup
import Mysnips.HttpPathNormal
import Mysnips.HttpRoutes
import Mysnips.QueryStringDecoding
import Mysnips.HttpCookie
import Mysnips.HttpServerOutput
import Mysnips.HttpServerShutdown
import Mysnips.HttpServerKeepAlive
import Mysnips.ByteQueueBounds
import Mysnips.TcpQueues
import Mysnips.TcpEvents
import Mysnips.TcpDataEvents
import Mysnips.AsyncIoSubmissions
import Mysnips.SemaphoreTimeout
import Mysnips.SqlitePrepare
import Mysnips.HttpMarkdown
import Mysnips.BuddyAllocMerging
import Mysnips.HashMapCoverage
import Mysnips.GapBufferBoundaries
import Mysnips.SpscQueueRegions
import Mysnips.MpmcQueueSlots
import Mysnips.BitScan
import Mysnips.Bits
import Mysnips.BuddyAllocSizeClasses
import Mysnips.ThreadPoolJobIds
import Mysnips.Packing
import Mysnips.PoolAllocSlots
import Mysnips.HashMapSizing
import Mysnips.BuddyAllocLargePools
import Mysnips.ThreadPoolAccessProgress
import Mysnips.ThreadPoolAtomic
import Mysnips.MpmcQueueProgress
import Mysnips.LogThreadsFiles
import Mysnips.LogThreadsQuit
import Mysnips.FileTree
import Mysnips.TcpStreams
