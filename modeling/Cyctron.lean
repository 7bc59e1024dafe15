import Cyctron.Machine.Labelled
import Cyctron.Machine.LinkedQueue
import Cyctron.Machine.Holdings
import Cyctron.Machine.Ownership
import Cyctron.Machine.SingleFile
import Cyctron.Base.CString
import Cyctron.Call.Protocol
import Cyctron.WsWorker.Model
import Cyctron.WsWorker.Inversion
import Cyctron.WsWorker.Stage
import Cyctron.WsWorker.Threads
import Cyctron.WsWorker.Serial
import Cyctron.WsWorker.Flow
import Cyctron.WsWorker.Admission
import Cyctron.WsWorker.Wakeup
import Cyctron.WsWorker.Progress
import Cyctron.WsWorker.Metrics
import Cyctron.WsWorker.Locals
import Cyctron.WsWorker.Timeout
import Cyctron.WsWorker.Order
import Cyctron.WsWorker.Starvation
import Cyctron.WsWorker.Limits
import Cyctron.WsWorker.Shutdown
import Cyctron.WsWorker.Delivery
import Cyctron.Server.Connections
import Cyctron.Server.Model
import Cyctron.Server.Inversion
import Cyctron.Server.Control
import Cyctron.Server.Messages
import Cyctron.Server.Progress
import Cyctron.Server.Answers
import Cyctron.Calldyn.Core
import Cyctron.Event.Format
import Cyctron.Machine.LinkedList
import Cyctron.Realtime.Model
import Cyctron.Realtime.Refine
import Cyctron.Realtime.Identity
import Cyctron.Realtime.Account
import Cyctron.Ws.Bind
import Cyctron.Ws.Ownership
import Cyctron.Base.Path
import Cyctron.Ws.Paths
import Cyctron.Plugin.Path
import Cyctron.Json.Build
import Cyctron.Json.Escape
import Cyctron.Json.Braces
import Cyctron.Ws.Replies
import Cyctron.Mongoose.Json
import Cyctron.Call.Response
import Cyctron.Server.Ids
import Cyctron.Mongoose.Object
import Cyctron.Call.Accept
import Cyctron.Call.Readback
import Cyctron.Server.Table
import Cyctron.Calldyn.Cache
import Cyctron.Http.Message
import Cyctron.Http.Routing
import Cyctron.Http.Api
import Cyctron.Sse.Format
import Cyctron.Text.Utf8
import Cyctron.Sse.Client
import Cyctron.Mongoose.Query
import Cyctron.Sse.Model
import Cyctron.Sse.Table
import Cyctron.Sse.EventStream
import Cyctron.Calldyn.Local
import Cyctron.Http.Libary
import Cyctron.Sse.Stream
import Cyctron.Base.FileTree
import Cyctron.Call.Memory
import Cyctron.Call.Stages
import Cyctron.Event.Encode
import Cyctron.Event.Unicode
import Cyctron.Http.Parse
import Cyctron.Http.Static
import Cyctron.Json.Acceptor
import Cyctron.Json.Length
import Cyctron.Json.Seams
import Cyctron.Machine.History
import Cyctron.Mongoose.Reach
import Cyctron.Realtime.Channel
import Cyctron.Realtime.Frames
import Cyctron.Ws.Apart
import Cyctron.Ws.Command
import Cyctron.Ws.Library
import Cyctron.Http.Probe
import Cyctron.Event.Escapers
import Cyctron.Realtime.Lists
import Cyctron.Mongoose.Decimal
import Cyctron.Sse.Life
import Cyctron.Sse.Once
import Cyctron.Sse.Resume
import Cyctron.Sse.Request
import Cyctron.Http.Input
import Cyctron.Http.Forward
import Cyctron.Machine.Tickets
import Cyctron.Realtime.Ids
import Cyctron.Machine.Framing
import Cyctron.Mongoose.Websocket
import Cyctron.Mongoose.Iobuf
import Cyctron.Mongoose.Receive
import Cyctron.Mongoose.Reading
import Cyctron.Http.Chunked
import Cyctron.Http.Stream
import Cyctron.Http.Conversation
import Cyctron.Http.Lengths
import Cyctron.Http.Transfer
import Cyctron.Http.Heads
import Cyctron.Http.Reply
import Cyctron.Http.Ranges
import Cyctron.Http.Serving
import Cyctron.Http.Download
