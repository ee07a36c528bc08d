import Tiodb.Lib.Prog
import Tiodb.Lib.Machine
import Tiodb.Lib.Locks
import Tiodb.Lib.Lists
import Tiodb.Lib.Tables
import Tiodb.Lib.Replay
import Tiodb.Lib.Linear
import Tiodb.Lib.LittleEndian
import Tiodb.Lib.File
import Tiodb.Data
import Tiodb.Storage.Index
import Tiodb.Storage.ListStorage
import Tiodb.Storage.Mirror
import Tiodb.Storage.MapStorage
import Tiodb.Storage.MapReplay
import Tiodb.Storage.VectorStorage
import Tiodb.Storage.Container
import Tiodb.Storage.Slices
import Tiodb.Storage.Positions
import Tiodb.Storage.Guards
import Tiodb.Storage.Discipline
import Tiodb.Storage.Sequences
import Tiodb.Storage.SideBySide
import Tiodb.Server.Modify
import Tiodb.Server.ContainerManager
import Tiodb.Server.ManagerCalls
import Tiodb.Server.Registry
import Tiodb.Server.Auth
import Tiodb.Server.Permissions
import Tiodb.Protocol.Text
import Tiodb.Server.TextServer
import Tiodb.Server.Access
import Tiodb.Server.Framing
import Tiodb.Server.Publisher
import Tiodb.Server.Delivery
import Tiodb.Server.Snapshot
import Tiodb.Protocol.Pr1
import Tiodb.Client.Receive
import Tiodb.Protocol.Message
import Tiodb.Protocol.BufferRoom
import Tiodb.Client.Query
import Tiodb.Server.Sending
import Tiodb.Server.DataCommand
import Tiodb.Server.LogOrder
import Tiodb.Server.Sessions
import Tiodb.Server.Handles
import Tiodb.Server.Groups
import Tiodb.Client.Containers
import Tiodb.Client.TableRuns
import Tiodb.Server.Handlers
import Tiodb.Server.OneReply
import Tiodb.Ldb.Format
import Tiodb.Ldb.Database
import Tiodb.Ldb.Chain
import Tiodb.Ldb.Load
import Tiodb.Ldb.Placement
import Tiodb.Ldb.Invariant
import Tiodb.Ldb.Operations
import Tiodb.Ldb.Reload
import Tiodb.Ldb.Recovery
import Tiodb.Ldb.Crash
import Tiodb.Lib.Decimal
import Tiodb.Protocol.LogLine
import Tiodb.Storage.WholeKeys
import Tiodb.Storage.Failures
import Tiodb.Server.Deletion
import Tiodb.Protocol.Answer
import Tiodb.Protocol.PyReader
import Tiodb.Protocol.TextEvents
import Tiodb.Protocol.FieldBounds
import Tiodb.Client.Segments
import Tiodb.Lib.Ring
import Tiodb.Client.NetworkBatch
import Tiodb.Server.HandleTable
import Tiodb.Lib.Agree
import Tiodb.Server.Quiet
import Tiodb.Server.TransactionLog
import Tiodb.Server.QuietManager
import Tiodb.Server.LogReplay
import Tiodb.Client.PyCommand
import Tiodb.Client.Clusters
import Tiodb.Lib.Hexadecimal
import Tiodb.Protocol.X1
import Tiodb.Lib.Pieces
import Tiodb.Server.LogFile
import Tiodb.Lib.Circular
import Tiodb.Server.LogQueue
import Tiodb.Server.TextSending
import Tiodb.Server.SendSize
import Tiodb.Server.HttpParser
import Tiodb.Client.PyDispatch
import Tiodb.Client.EventList
import Tiodb.Ldb.PagedFile
import Tiodb.Client.PyQuery
import Tiodb.Lib.Utf8
import Tiodb.Lib.Json
import Tiodb.Server.HttpJson
import Tiodb.Ldb.Calls
import Tiodb.Ldb.Blocks
import Tiodb.Ldb.RecordIds
import Tiodb.Ldb.Asserts
import Tiodb.Lib.Keyed
import Tiodb.Lib.Calling
import Tiodb.Ldb.OnPages
import Tiodb.Ldb.Cached
import Tiodb.Ldb.CachedRuns
import Tiodb.Client.PyAnswer
import Tiodb.Client.PyMessages
import Tiodb.Client.PyCalls
import Tiodb.Client.PyPairing
import Tiodb.Server.BinaryCommands
import Tiodb.Client.Calls
import Tiodb.Client.CallsServed
import Tiodb.Client.ManyClients
import Tiodb.Ldb.ByKey
import Tiodb.Ldb.Rows
import Tiodb.Ldb.Outgrown
