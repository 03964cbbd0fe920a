import Hypertext.Bytes
import Hypertext.Client.Error
import Hypertext.Client.Incoming
import Hypertext.Client.Outgoing
import Hypertext.Client.Pool
import Hypertext.Client.Session
import Hypertext.Client.Target
import Hypertext.Config.Client
import Hypertext.Config.Error
import Hypertext.Config.Server
import Hypertext.Decimal.Shortest
import Hypertext.Dispatch
import Hypertext.FileTree
import Hypertext.Gzip.Crc32
import Hypertext.Gzip.Deflate
import Hypertext.Gzip.Huffman
import Hypertext.Gzip.Inflate
import Hypertext.Gzip.Member
import Hypertext.Handler.Basic
import Hypertext.Handler.Context
import Hypertext.Handler.Error
import Hypertext.IoError
import Hypertext.Json.Basic
import Hypertext.Json.Decode
import Hypertext.Json.Fault
import Hypertext.Json.Parse
import Hypertext.Json.Print
import Hypertext.Json.Reader
import Hypertext.Json.Skip
import Hypertext.Message.Body
import Hypertext.Message.Chunked
import Hypertext.Message.Coding
import Hypertext.Message.Framing
import Hypertext.Message.Head
import Hypertext.Message.Headers
import Hypertext.Message.Method
import Hypertext.Message.Request
import Hypertext.Message.Response
import Hypertext.Message.Scan
import Hypertext.Message.Status
import Hypertext.Message.Version
import Hypertext.Net.Address
import Hypertext.Net.Pipe
import Hypertext.Net.ReadBuffer
import Hypertext.Proofs.Client.Alone
import Hypertext.Proofs.Client.Attribution
import Hypertext.Proofs.Client.Correspondence
import Hypertext.Proofs.Client.Intake
import Hypertext.Proofs.Client.PoolAccount
import Hypertext.Proofs.Client.PoolHistory
import Hypertext.Proofs.Client.PoolStreams
import Hypertext.Proofs.Client.ProperBody
import Hypertext.Proofs.Client.Reception
import Hypertext.Proofs.Client.RequestRoundTrip
import Hypertext.Proofs.Client.ResponseRoundTrip
import Hypertext.Proofs.Client.Segmentation
import Hypertext.Proofs.Files.Containment
import Hypertext.Proofs.Files.Walk
import Hypertext.Proofs.Message.BodySize
import Hypertext.Proofs.Message.ChunkedForm
import Hypertext.Proofs.Message.ChunkedGrammar
import Hypertext.Proofs.Message.DeclaredFraming
import Hypertext.Proofs.Message.Delimited
import Hypertext.Proofs.Message.FieldText
import Hypertext.Proofs.Message.HeadLines
import Hypertext.Proofs.Message.Incremental
import Hypertext.Proofs.Message.RawHead
import Hypertext.Proofs.Message.RawResponse
import Hypertext.Proofs.Message.RequestHead
import Hypertext.Proofs.Message.ResponseHead
import Hypertext.Proofs.Message.SelfDelimiting
import Hypertext.Proofs.Route.Atomicity
import Hypertext.Proofs.Route.Branches
import Hypertext.Proofs.Route.Building
import Hypertext.Proofs.Route.FileRoute
import Hypertext.Proofs.Route.Lookup
import Hypertext.Proofs.Route.Reachability
import Hypertext.Proofs.Route.Registration
import Hypertext.Proofs.Route.Retention
import Hypertext.Proofs.Route.Specificity
import Hypertext.Proofs.Server.Admission
import Hypertext.Proofs.Server.Buffering
import Hypertext.Proofs.Server.Conversation
import Hypertext.Proofs.Server.Drain
import Hypertext.Proofs.Server.ForcedClose
import Hypertext.Proofs.Server.KeepAlive
import Hypertext.Proofs.Server.Ledger
import Hypertext.Proofs.Server.Lifecycle
import Hypertext.Proofs.Server.Lifetime
import Hypertext.Proofs.Server.Parting
import Hypertext.Proofs.Server.Record
import Hypertext.Proofs.Server.RequestSize
import Hypertext.Proofs.Server.Segmentation
import Hypertext.Proofs.Server.Service
import Hypertext.Proofs.Server.SizeLimit
import Hypertext.Proofs.Server.Transmission
import Hypertext.Proofs.Server.Waiting
import Hypertext.Proofs.Shutdown.Registry
import Hypertext.Proofs.Shutdown.Reports
import Hypertext.Proofs.Shutdown.Traffic
import Hypertext.Proofs.Time.Passing
import Hypertext.Proofs.Url.Visible
import Hypertext.Route.ApiDocument
import Hypertext.Route.Assets
import Hypertext.Route.Builder
import Hypertext.Route.Directory
import Hypertext.Route.MediaType
import Hypertext.Route.Params
import Hypertext.Route.Pattern
import Hypertext.Route.Router
import Hypertext.Server.Admission
import Hypertext.Server.CloseReason
import Hypertext.Server.Connection
import Hypertext.Server.Exchange
import Hypertext.Server.Listener
import Hypertext.Server.Service
import Hypertext.Shutdown.Coordinator
import Hypertext.Shutdown.Registry
import Hypertext.Text.Ascii
import Hypertext.Text.Blank
import Hypertext.Text.Integer
import Hypertext.Text.Printable
import Hypertext.Text.Quoted
import Hypertext.Text.Split
import Hypertext.Text.Utf8
import Hypertext.Time.Duration
import Hypertext.Time.Timeline
import Hypertext.Url.Basic
import Hypertext.Url.Host
import Hypertext.Url.Path
import Hypertext.Url.Percent
import Hypertext.Url.Punycode
import Hypertext.Proofs.Route.Ambiguity
import Hypertext.Proofs.Route.Substitution
import Hypertext.Message.Positions
import Hypertext.Proofs.Route.Allowed
import Hypertext.Proofs.Message.WordPositions
import Hypertext.Proofs.Gzip.Limit
import Hypertext.Proofs.Client.Reads
import Hypertext.Proofs.Client.Bounds
import Hypertext.Proofs.Server.Mirror
import Hypertext.Proofs.Server.HeadOnly
import Hypertext.Proofs.Client.ContentCoding
import Hypertext.Proofs.Route.Sealing
import Hypertext.Proofs.Json.Members
import Hypertext.Proofs.Route.Document
import Hypertext.Proofs.Gzip.Bits
import Hypertext.Proofs.Gzip.Words
import Hypertext.Proofs.Gzip.Codes
import Hypertext.Proofs.Gzip.Stream
import Hypertext.Proofs.Gzip.Grammar
import Hypertext.Proofs.Client.GzipBody
import Hypertext.Proofs.Route.AssetRoute
import Hypertext.Proofs.Server.Concealment
import Hypertext.Proofs.Server.Silence
import Hypertext.Proofs.Server.Negotiation
import Hypertext.Proofs.Message.Query
import Hypertext.Shutdown.DrainWait
import Hypertext.Proofs.Shutdown.Closedown
import Hypertext.Proofs.Shutdown.Timing
