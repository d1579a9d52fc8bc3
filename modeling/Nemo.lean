import Nemo.Infra.Lts
import Nemo.Infra.Custody
import Nemo.Coroutine.Overlap
import Nemo.Infra.Automaton
import Nemo.Infra.Slice
import Nemo.Http.Offsets
import Nemo.Http.Tokens
import Nemo.Http.Lines
import Nemo.Http.Framing
import Nemo.Infra.SortedMap
import Nemo.Common.CString
import Nemo.Http.Message
import Nemo.Net.SocketStream
import Nemo.Http.Session
import Nemo.Http.TokenOrder
import Nemo.Http.Seen
import Nemo.Http.Filling
import Nemo.Http.Version
import Nemo.Http.Harmless
import Nemo.Infra.Blocks
import Nemo.Infra.Fifo
import Nemo.Container.ByteArray
import Nemo.Container.ByteArrayFifo
import Nemo.Infra.Ring
import Nemo.Container.List
import Nemo.Infra.Lru
import Nemo.Container.LruCache
import Nemo.Container.LruCacheInvariant
import Nemo.Container.LruCacheOrder
import Nemo.Infra.OrderedSet
import Nemo.Coroutine.RoutineSyncTimer
import Nemo.Coroutine.TimerFrame
import Nemo.Coroutine.TimerArming
import Nemo.Coroutine.TimerCancel
import Nemo.Http.Arrival
import Nemo.Http.KeepAlive
import Nemo.Net.UriMachine
import Nemo.Log.LogFormatter
import Nemo.Log.Logger
import Nemo.Log.LogIniter
import Nemo.Container.Buffer
import Nemo.Log.FileLogAppender
import Nemo.Log.AppenderInvariant
import Nemo.Log.AppenderSafety
import Nemo.Log.AppenderRuns
import Nemo.Log.AppenderOrder
import Nemo.Coroutine.Balance
import Nemo.Coroutine.TaskPlaces
import Nemo.Coroutine.TaskAccounting
import Nemo.Net.FdManager
import Nemo.Net.FdMirror
import Nemo.Net.NonBlocking
import Nemo.Infra.Mask
import Nemo.Net.ReactorElement
import Nemo.Net.ReactorBookkeeping
import Nemo.Net.EpollWait
import Nemo.Net.Readiness
import Nemo.Http.Dump
import Nemo.Http.ClassArcs
import Nemo.Http.DumpScan
import Nemo.Http.DumpHead
import Nemo.Http.DumpErrors
import Nemo.Http.RoundTrip
import Nemo.Http.Servlet
import Nemo.Http.ConnectionPool
import Nemo.Common.ConfigListeners
import Nemo.Common.ConfigNotify
import Nemo.Common.ConfigLookup
import Nemo.Common.ConfigYaml
import Nemo.Log.FormatterInheritance
import Nemo.System.Module
import Nemo.Orm.MakeMessage
import Nemo.Infra.FirstSeen
import Nemo.Orm.JoinFolding
import Nemo.Orm.JoinRows
import Nemo.Http.ResponseRoundTrip
import Nemo.Util.Zigzag
import Nemo.Container.ByteArrayReader
import Nemo.Infra.Bytes
import Nemo.Container.ByteArrayFixed
import Nemo.Infra.Varint
import Nemo.Container.ByteArrayVarint
import Nemo.Container.ByteArrayString
import Nemo.Infra.Segments
import Nemo.Container.ByteArrayBuffers
import Nemo.Net.FixSize
import Nemo.Common.YamlNode
import Nemo.Common.YamlCast
import Nemo.Db.DbConfig
import Nemo.Log.LogDefineYaml
import Nemo.Infra.Scan
import Nemo.Infra.Callbacks
import Nemo.Http.ResponseTokens
import Nemo.Http.ResponseOrder
import Nemo.Http.ResponseHarmless
import Nemo.Http.ResponseArrival
import Nemo.Container.BulkPop
import Nemo.Container.ByteArrayFile
import Nemo.Container.BufferStorage
import Nemo.Log.LogPattern
import Nemo.Coroutine.BalanceActive
import Nemo.Coroutine.BalanceBlock
import Nemo.Infra.Cycle
import Nemo.Coroutine.RoundRobin
import Nemo.Coroutine.FirstCome
import Nemo.Infra.Prefix
import Nemo.Net.Address
import Nemo.Net.Subnet
import Nemo.Infra.GroupText
import Nemo.Net.Ipv6Text
import Nemo.Infra.Numeral
import Nemo.Infra.Integral
import Nemo.Util.Digit2Str
import Nemo.Common.Stream
import Nemo.Http.PoolEviction
import Nemo.Net.SocketTimeout
import Nemo.Net.HostService
import Nemo.Container.ByteArrayChain
import Nemo.Http.RequestLine
import Nemo.Http.HttpServer
import Nemo.Http.Conversation
import Nemo.Net.Uri
import Nemo.Http.DoRequest
import Nemo.Net.UriRoundTrip
import Nemo.Http.Chunked
import Nemo.Infra.Handles
import Nemo.Net.Socket
import Nemo.Log.Rendering
import Nemo.Util.ListFiles
import Nemo.Common.ConfigDir
import Nemo.Net.TcpServer
import Nemo.Net.ServerConfig
