import Backplane.Access.Bearer
import Backplane.Access.Cache
import Backplane.Access.Client
import Backplane.Access.ClientId
import Backplane.Access.Csrf
import Backplane.Access.Directory
import Backplane.Access.Error
import Backplane.Access.Magic
import Backplane.Access.Service
import Backplane.Access.Settings
import Backplane.Access.User
import Backplane.Bus.Basic
import Backplane.Bus.Delivery
import Backplane.Bus.Dispatch
import Backplane.Bus.Message
import Backplane.Bus.Settings
import Backplane.Data.Chunks
import Backplane.Data.Roster
import Backplane.Data.Runs
import Backplane.Data.Table
import Backplane.Digest.Blocks
import Backplane.Digest.Sha1
import Backplane.Digest.Sha2
import Backplane.Ed25519.Curve
import Backplane.Ed25519.Field
import Backplane.Ed25519.Signature
import Backplane.Json.Printer
import Backplane.Json.Record
import Backplane.Json.Token
import Backplane.Json.Tree
import Backplane.Json.Value
import Backplane.Key.Armor
import Backplane.Key.Der
import Backplane.Key.Document
import Backplane.Key.Store
import Backplane.Lock.Call
import Backplane.Lock.Decl
import Backplane.Lock.Error
import Backplane.Lock.Item
import Backplane.Lock.Service
import Backplane.Net.Address
import Backplane.Node.Basic
import Backplane.Node.Build
import Backplane.Node.Environment
import Backplane.Node.Listener
import Backplane.Node.Report
import Backplane.Node.Run
import Backplane.Node.Settings
import Backplane.Node.UserDecl
import Backplane.Proofs.Access.Bearer
import Backplane.Proofs.Access.Binding
import Backplane.Proofs.Access.Cache
import Backplane.Proofs.Access.Credentials
import Backplane.Proofs.Access.Departure
import Backplane.Proofs.Access.Effect
import Backplane.Proofs.Access.Expiry
import Backplane.Proofs.Access.Forgery
import Backplane.Proofs.Access.History
import Backplane.Proofs.Access.Identity
import Backplane.Proofs.Access.Idle
import Backplane.Proofs.Access.Isolation
import Backplane.Proofs.Access.Lifecycle
import Backplane.Proofs.Access.Lifetime
import Backplane.Proofs.Access.Logout
import Backplane.Proofs.Access.Persistence
import Backplane.Proofs.Access.Rejection
import Backplane.Proofs.Access.Service
import Backplane.Proofs.Access.Sessions
import Backplane.Proofs.Access.Spelling
import Backplane.Proofs.Access.Storage
import Backplane.Proofs.Access.Turnover
import Backplane.Proofs.Bus.Calls
import Backplane.Proofs.Bus.Dispatch
import Backplane.Proofs.Bus.Drain
import Backplane.Proofs.Bus.Heartbeat
import Backplane.Proofs.Bus.History
import Backplane.Proofs.Bus.Operation
import Backplane.Proofs.Bus.Order
import Backplane.Proofs.Bus.Registry
import Backplane.Proofs.Bus.Transaction
import Backplane.Proofs.Bus.Worker
import Backplane.Proofs.Data.Roster
import Backplane.Proofs.Data.Table
import Backplane.Proofs.Json.Exact
import Backplane.Proofs.Json.Grammar
import Backplane.Proofs.Json.Layout
import Backplane.Proofs.Json.Record
import Backplane.Proofs.Json.Token
import Backplane.Proofs.Json.Tree
import Backplane.Proofs.Key.Armor
import Backplane.Proofs.Key.Document
import Backplane.Proofs.Key.Store
import Backplane.Proofs.Lock.Alike
import Backplane.Proofs.Lock.Batch
import Backplane.Proofs.Lock.Block
import Backplane.Proofs.Lock.Collection
import Backplane.Proofs.Lock.Deadlock
import Backplane.Proofs.Lock.Decl
import Backplane.Proofs.Lock.Erasure
import Backplane.Proofs.Lock.Exclusion
import Backplane.Proofs.Lock.Grants
import Backplane.Proofs.Lock.Handover
import Backplane.Proofs.Lock.History
import Backplane.Proofs.Lock.Item
import Backplane.Proofs.Lock.Ledger
import Backplane.Proofs.Lock.Operation
import Backplane.Proofs.Lock.Ownership
import Backplane.Proofs.Lock.Paired
import Backplane.Proofs.Lock.Refund
import Backplane.Proofs.Lock.Refusal
import Backplane.Proofs.Lock.Registration
import Backplane.Proofs.Lock.RoundTrip
import Backplane.Proofs.Lock.Run
import Backplane.Proofs.Lock.Script
import Backplane.Proofs.Lock.Separation
import Backplane.Proofs.Lock.Service
import Backplane.Proofs.Lock.Single
import Backplane.Proofs.Lock.Supply
import Backplane.Proofs.Lock.Tenure
import Backplane.Proofs.Lock.Undisturbed
import Backplane.Proofs.Lock.Wakeup
import Backplane.Proofs.Lock.Without
import Backplane.Proofs.Net.Address
import Backplane.Proofs.Net.Loopback
import Backplane.Proofs.Node.Logons
import Backplane.Proofs.Node.Schedule
import Backplane.Proofs.Node.Seed
import Backplane.Proofs.Node.Stage
import Backplane.Proofs.Node.UserDecl
import Backplane.Proofs.Text.Base64
import Backplane.Proofs.Text.Numeral
import Backplane.Proofs.Text.Spelling
import Backplane.Proofs.Text.Split
import Backplane.Proofs.Text.Utf8
import Backplane.Text.Base64
import Backplane.Text.Blank
import Backplane.Text.Hex
import Backplane.Text.Hidden
import Backplane.Text.Numeral
import Backplane.Text.Quoted
import Backplane.Text.Split
import Backplane.Text.Timestamp
import Backplane.Timeline
