import Da4qi4.Foundation.Bytes
import Da4qi4.Foundation.Transition
import Da4qi4.Foundation.OrderedMap
import Da4qi4.Foundation.FirstSplit
import Da4qi4.Foundation.Occurrence
import Da4qi4.Foundation.PrefixMap
import Da4qi4.Foundation.KeyedList
import Da4qi4.Foundation.LexicalPath
import Da4qi4.Foundation.ChunkedCoding
import Da4qi4.Foundation.ResponseFraming
import Da4qi4.Foundation.Substitution
import Da4qi4.Foundation.Blocks
import Da4qi4.Foundation.HeaderLines
import Da4qi4.Utilities.Strings
import Da4qi4.Utilities.HttpUtilities
import Da4qi4.Utilities.HtmlUtilities
import Da4qi4.Utilities.JsonText
import Da4qi4.Utilities.Valuetool
import Da4qi4.Utilities.Des3Utilities
import Da4qi4.Utilities.UrlDecoding
import Da4qi4.Http.Request
import Da4qi4.Http.RequestCookies
import Da4qi4.Http.UrlParser
import Da4qi4.Http.Response
import Da4qi4.Http.ResponseCharset
import Da4qi4.Http.ResponseText
import Da4qi4.Http.Cookie
import Da4qi4.Http.ResponseLines
import Da4qi4.Http.CookieJar
import Da4qi4.Http.CookieAge
import Da4qi4.Http.Connection
import Da4qi4.Http.ConnectionHeaders
import Da4qi4.Http.ConnectionInterim
import Da4qi4.Http.MultipartParser
import Da4qi4.Http.ConnectionReading
import Da4qi4.Http.ConnectionRouting
import Da4qi4.Http.ConnectionLimit
import Da4qi4.Http.ConnectionParts
import Da4qi4.Http.ConnectionPipeline
import Da4qi4.Http.ConnectionStreaming
import Da4qi4.Http.ConnectionFraming
import Da4qi4.Http.ConnectionPersistence
import Da4qi4.Http.ConnectionTurns
import Da4qi4.Http.FormData
import Da4qi4.Http.UploadFile
import Da4qi4.Http.ContentType
import Da4qi4.Http.ConnectionIsolation
import Da4qi4.Http.ConnectionRefusal
import Da4qi4.Http.ConnectionProgress
import Da4qi4.Websocket.Frame
import Da4qi4.Websocket.FrameCodec
import Da4qi4.Websocket.FrameDelivery
import Da4qi4.Websocket.FrameOctets
import Da4qi4.Websocket.FrameChunks
import Da4qi4.Websocket.FrameTermination
import Da4qi4.Websocket.Connection
import Da4qi4.Websocket.ConnectionMessages
import Da4qi4.Websocket.ConnectionControl
import Da4qi4.Websocket.ConnectionWriting
import Da4qi4.Websocket.ConnectionReading
import Da4qi4.Websocket.ConnectionFrames
import Da4qi4.Websocket.ConnectionHalts
import Da4qi4.Websocket.Registry
import Da4qi4.Websocket.RegistryReach
import Da4qi4.Websocket.RegistryLife
import Da4qi4.Redis.Parser
import Da4qi4.Redis.ParserOctets
import Da4qi4.Redis.Client
import Da4qi4.Redis.ClientQueue
import Da4qi4.Redis.ClientLink
import Da4qi4.Redis.ClientAttempts
import Da4qi4.Redis.ClientDisconnect
import Da4qi4.Redis.ClientReplies
import Da4qi4.Redis.Resp
import Da4qi4.Redis.ParserStates
import Da4qi4.Redis.ParserNumbers
import Da4qi4.Redis.ParserErrors
import Da4qi4.Redis.ParserCounts
import Da4qi4.Redis.Commands
import Da4qi4.Redis.ClientProvenance
import Da4qi4.Intercepters.Context
import Da4qi4.Intercepters.Handling
import Da4qi4.Intercepters.StaticFile
import Da4qi4.Intercepters.SessionRedis
import Da4qi4.Intercepters.Passage
import Da4qi4.Server.ApplicationMgr
import Da4qi4.Server.Router
import Da4qi4.Server.FindHandler
import Da4qi4.Websocket.Upgrade
import Da4qi4.Server.HandlerMethods
import Da4qi4.Server.RouteParameters
import Da4qi4.Server.Server
import Da4qi4.Server.IdleTimer
import Da4qi4.Server.Templates
import Da4qi4.Server.TemplatesChecks
import Da4qi4.Server.TemplatesWatch
import Da4qi4.Server.TemplatesReload
import Da4qi4.Client.Connection
import Da4qi4.Client.ConnectionReading
import Da4qi4.Client.ConnectionAsync
import Da4qi4.Client.ConnectionResponses
import Da4qi4.Server.SetUp
import Da4qi4.Server.MountApplication
import Da4qi4.Foundation.Joining
import Da4qi4.Http.MultipartCuts
import Da4qi4.Http.MultipartBody
import Da4qi4.Websocket.ConnectionStream
import Da4qi4.Redis.Grammar
import Da4qi4.Utilities.Base64Utilities
import Da4qi4.Client.RequestText
import Da4qi4.Http.ConnectionChunked
import Da4qi4.Intercepters.StaticFileContent
import Da4qi4.Intercepters.SessionSharing
import Da4qi4.Foundation.Execution
import Da4qi4.Inja.Lexer
import Da4qi4.Inja.Pages
