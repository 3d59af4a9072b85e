import BreWebServer.Lib.Cut
import BreWebServer.Lib.Reader
import BreWebServer.Cpp.Text
import BreWebServer.Http.Request
import BreWebServer.Http.Parsing
import BreWebServer.Http.HeaderSection
import BreWebServer.Http.Viability
import BreWebServer.Http.Length
import BreWebServer.Cpp.Filesystem
import BreWebServer.Http.Response
import BreWebServer.Http.Connection
import BreWebServer.Server.HandleRequest
import BreWebServer.Server.Static
import BreWebServer.Http.Stream
import BreWebServer.Lib.Machine
import BreWebServer.Server.Session
import BreWebServer.Server.Exchange
import BreWebServer.Server.Shutdown
import BreWebServer.Server.IdleTime
import BreWebServer.Http.Client
import BreWebServer.Server.Framing
import BreWebServer.Http.Decoding
import BreWebServer.Server.ConnectionHeader
import BreWebServer.Server.Paths
import BreWebServer.Server.StaticServers
import BreWebServer.Lib.Registry
import BreWebServer.Database.Pool
import BreWebServer.Database.Clients
import BreWebServer.Database.Waiting
import BreWebServer.Database.Ownership
import BreWebServer.Database.Users
import BreWebServer.Service.UserService
import BreWebServer.Service.Accounts
import BreWebServer.Server.Secrecy
import BreWebServer.Frontend.Form
import BreWebServer.Server.Totality
import BreWebServer.Server.FieldNames
import BreWebServer.Database.Release
import BreWebServer.Database.Opening
import BreWebServer.Service.FailClosed
import BreWebServer.Server.StatusCodes
import BreWebServer.Server.Listing
import BreWebServer.Database.ConnInfo
import BreWebServer.Frontend.Lookup
import BreWebServer.Server.Accepting
import BreWebServer.Server.Statistics
import BreWebServer.Server.Lifetime
import BreWebServer.Server.Sessions
import BreWebServer.Server.Stopping
import BreWebServer.Server.Serving
import BreWebServer.Server.Site
import BreWebServer.Server.Connection
import BreWebServer.Lib.Positions
import BreWebServer.Service.Calls
import BreWebServer.Service.Holding
import BreWebServer.Service.Finishing
import BreWebServer.Server.Socket
import BreWebServer.Server.Benchmark
import BreWebServer.Frontend.Pages
