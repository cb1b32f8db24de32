import CBank.CLib.Text
import CBank.CLib.Lines
import CBank.CLib.Number
import CBank.CLib.Double
import CBank.CLib.Memory
import CBank.CLib.Bits
import CBank.CLib.Printing
import CBank.CLib.Fields
import CBank.CLib.Proc
import CBank.CLib.Relation
import CBank.CLib.Pipeline
import CBank.CLib.Runs
import CBank.CLib.Message
import CBank.Base64
import CBank.Base64Encoder
import CBank.Base64Decoder
import CBank.Jwt
import CBank.SessionIdentity
import CBank.TokenExpiry
import CBank.TokenMemory
import CBank.TokenBlocks
import CBank.ClaimsReader
import CBank.Disk
import CBank.InsertQuery
import CBank.SelectQuery
import CBank.IdTracker
import CBank.TrackerFile
import CBank.AccountStore
import CBank.AccountRows
import CBank.Registration
import CBank.Ledger
import CBank.Session
import CBank.IdSafety
import CBank.UserTable
import CBank.Timestamps
import CBank.StoredUsers
import CBank.WhereClauses
import CBank.ResultAlignment
import CBank.ResultWrites
import CBank.RowJoiners
import CBank.AccountLookup
import CBank.AccountCreation
import CBank.Login
import CBank.EmailUniqueness
import CBank.Http
import CBank.Middlewares
import CBank.EnvFile
import CBank.UrlDecoding
import CBank.RequestParser
import CBank.RequestLine
import CBank.HeaderBlock
import CBank.CookieList
import CBank.Router
import CBank.Routes
import CBank.RouteTable
import CBank.Server
import CBank.FormData
import CBank.Handlers
import CBank.RegisterLogin
import CBank.FieldWrites
import CBank.DtoCopy
import CBank.IncompleteRegistration
import CBank.EncodingsAgree
import CBank.Render
import CBank.Templates
import CBank.RenderingEnds
import CBank.Pages
import CBank.JsonTree
import CBank.AccountsApi
import CBank.Definedness
import CBank.Answers
import CBank.ResponseBytes
import CBank.MissingHeaders
import CBank.Releases
import CBank.ServerRuns
import CBank.StoreRuns
import CBank.Bank
import CBank.BankRuns
import CBank.AccountOwners
import CBank.ResponseFraming
import CBank.TokenOwners
import CBank.BankPages
import CBank.CustomerSessions
import CBank.ServedRegistrations
import CBank.LoginRequired
import CBank.Durability
import CBank.ClientRequests
import CBank.ClientForms
