import TinyLord.Lib.Run
import TinyLord.Lib.Broadcast
import TinyLord.Lib.Receiver
import TinyLord.Lib.Transaction
import TinyLord.Lib.Autocommit
import TinyLord.Lib.Savepoint
import TinyLord.Lib.Invariant
import TinyLord.Lib.Durable
import TinyLord.Lib.Script
import TinyLord.Lib.Lockstep
import TinyLord.Lib.Table
import TinyLord.Lib.Threads
import TinyLord.Lib.Linear
import TinyLord.Lib.Onlooker
import TinyLord.Lib.Replica
import TinyLord.Lib.Inodes
import TinyLord.Lib.Paging
import TinyLord.Lib.Feed
import TinyLord.Lib.History
import TinyLord.Lib.SortedMap
import TinyLord.Lib.Sql.Expr
import TinyLord.Lib.Sql.Lexer
import TinyLord.Lib.Sql.Parser
import TinyLord.Lib.Sql.Clause
import TinyLord.Lib.Sql.Select
import TinyLord.Lib.Sql.Template
import TinyLord.Lib.Sql.OrderBy
import TinyLord.Lib.Sql.Offset
import TinyLord.Lib.Sql.Like
import TinyLord.Text
import TinyLord.Ids
import TinyLord.Db.Changelog
import TinyLord.Db.Schema
import TinyLord.Db.Writer
import TinyLord.Db.Kept
import TinyLord.Db.Unique
import TinyLord.Db.Effect
import TinyLord.Db.Replies
import TinyLord.Db.Course
import TinyLord.Db.History
import TinyLord.Db.Numbering
import TinyLord.Db.Grouping
import TinyLord.Db.Creation
import TinyLord.Db.RunLoop
import TinyLord.Db.Registry
import TinyLord.Db.Drop
import TinyLord.Db.Listing
import TinyLord.Db.Indexes
import TinyLord.Db.Actors
import TinyLord.Api.Collections
import TinyLord.Api.LoginGuard
import TinyLord.Api.IndexNames
import TinyLord.Api.Indexes
import TinyLord.Api.Reserved
import TinyLord.Api.Router
import TinyLord.Api.Store
import TinyLord.Api.WellFormed
import TinyLord.Api.Snapshots
import TinyLord.Query.Values
import TinyLord.Query.Filter
import TinyLord.Query.Meaning
import TinyLord.Query.Paths
import TinyLord.Query.Endpoint
import TinyLord.Query.Pages
import TinyLord.Query.Offsets
import TinyLord.Query.Creation
import TinyLord.Query.Projection
import TinyLord.Query.Shape
import TinyLord.Realtime.Subscribe
import TinyLord.Realtime.Delivery
import TinyLord.Realtime.Resume
import TinyLord.Realtime.Batch
import TinyLord.Realtime.Replica
import TinyLord.Realtime.Frames
import TinyLord.Realtime.Client
import TinyLord.Query.Agree
import TinyLord.Query.Algebra
import TinyLord.Pubsub.Presence
import TinyLord.Pubsub.Events
import TinyLord.Pubsub.Publish
import TinyLord.Pubsub.Room
import TinyLord.System.Tables
import TinyLord.System.Browser
import TinyLord.System.Sessions
import TinyLord.System.PasswordReset
import TinyLord.System.Grants
import TinyLord.System.Principals
import TinyLord.System.Search
import TinyLord.System.Disable
import TinyLord.System.Credentials
import TinyLord.Api.Server
import TinyLord.Api.Service
import TinyLord.System.Calls
import TinyLord.System.Validity
import TinyLord.System.Migration
import TinyLord.Api.FailedLogin
import TinyLord.Encryption
import TinyLord.Startup
import TinyLord.Rekey
