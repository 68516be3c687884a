import Marvin.Data.Bytes
import Marvin.Data.KeyedList
import Marvin.Data.History
import Marvin.Data.Heap
import Marvin.Data.Regex
import Marvin.Data.Runs
import Marvin.Data.Tagged
import Marvin.Data.Transition
import Marvin.Fault
import Marvin.Buffer.ContigBuffer
import Marvin.Buffer.BufferChain
import Marvin.Buffer.BufferRuns
import Marvin.Buffer.ChainStore
import Marvin.Buffer.ChainRuns
import Marvin.Http.HeaderFields
import Marvin.Http.HeaderMap
import Marvin.Http.MessageBase
import Marvin.Http.KeepAlive
import Marvin.Http.HttpParser
import Marvin.Http.ScriptedParser
import Marvin.Http.Parser
import Marvin.Http.HeaderSection
import Marvin.Http.HeaderRemoval
import Marvin.Http.Serializers
import Marvin.Http.ConnectionTokens
import Marvin.Http.Trailers
import Marvin.Http.Segmentation
import Marvin.Http.Segments
import Marvin.Http.HeadSize
import Marvin.Http.EndOfInput
import Marvin.Http.ScriptedEnd
import Marvin.Http.RoundTrip
import Marvin.Http.Uri
import Marvin.Message.FullMessageReader
import Marvin.Message.ReaderProgress
import Marvin.Message.BackToBack
import Marvin.Message.EndOfInput
import Marvin.Message.MessageWriter
import Marvin.Message.WriterReuse
import Marvin.Helpers.Mitm
import Marvin.Helpers.EndToEnd
import Marvin.Helpers.HopByHop
import Marvin.Client.Client
import Marvin.Client.ConnectRuns
import Marvin.Connection.Timeout
import Marvin.Connection.TimeoutClient
import Marvin.Connection.TunnelHandler
import Marvin.Connection.TunnelExpiry
import Marvin.Connection.TunnelCourse
import Marvin.Connection.Connection
import Marvin.Server.MitmApp
import Marvin.Server.Forwarding
import Marvin.Server.Framing
import Marvin.Server.MitmSession
import Marvin.Server.SessionInvariant
import Marvin.Server.SessionEnd
import Marvin.Server.ServerConnectionManager
import Marvin.Server.TcpServer
import Marvin.Server.Accepting
import Marvin.Server.Termination
import Marvin.Http.HeaderComparison
import Marvin.SimpleProxy.CtlApp
import Marvin.Collector.CaptureCollector
import Marvin.Collector.CaptureFilter
import Marvin.Message.BufferSizes
import Marvin.Server.ConnectActions
import Marvin.SimpleProxy.FilterRequests
import Marvin.SimpleProxy.KeepAliveRules
import Marvin.Http.UriNormalisation
import Marvin.Server.Collection
import Marvin.Connection.AsyncConnect
import Marvin.Http.HeaderOnly
import Marvin.Data.RegexMatches
import Marvin.Data.Memory
import Marvin.Http.UriQuery
import Marvin.Buffer.BufferMemory
import Marvin.Data.Ledger
import Marvin.Buffer.BufferHeap
import Marvin.Buffer.BufferSlabs
import Marvin.Buffer.BufferMoves
import Marvin.Http.ReadBack
import Marvin.Server.RequestHandler
import Marvin.Server.Serving
import Marvin.Server.Transparency
import Marvin.SimpleProxy.CtlServer
import Marvin.Data.Spool
import Marvin.Collector.CoutCollector
import Marvin.Collector.PipeCollector
import Marvin.Server.Journal
import Marvin.SimpleProxy.FilterListing
import Marvin.SimpleProxy.ControlCommands
import Marvin.Data.Simulation
import Marvin.Server.Refinement
import Marvin.SimpleProxy.Dialogues
