import SystemDesign.Lib.Run
import SystemDesign.Lib.Termination
import SystemDesign.Lib.Async
import SystemDesign.Lib.Stages
import SystemDesign.Lib.Race
import SystemDesign.Lib.Text
import SystemDesign.Lib.Json
import SystemDesign.Lib.Stringify
import SystemDesign.Lib.Uuid
import SystemDesign.Lib.Separated
import SystemDesign.Lib.QuorumQueue
import SystemDesign.Lib.Redelivery
import SystemDesign.Lib.DeliveryBudget
import SystemDesign.Lib.RateLimit
import SystemDesign.Lib.Relational
import SystemDesign.Lib.Statement
import SystemDesign.Lib.Records
import SystemDesign.Lib.Startup
import SystemDesign.Database
import SystemDesign.Migrations.Migration
import SystemDesign.Migrations.Run
import SystemDesign.Migrations.Runner
import SystemDesign.Migrations.Compose
import SystemDesign.Queue.Message
import SystemDesign.Queue.Consumer
import SystemDesign.Queue.Acknowledge
import SystemDesign.Queue.System
import SystemDesign.Queue.NoLoss
import SystemDesign.Queue.Retry
import SystemDesign.Queue.AtMostOnce
import SystemDesign.Queue.Setup
import SystemDesign.Queue.Provenance
import SystemDesign.Queue.DeadLetter
import SystemDesign.Queue.Settle
import SystemDesign.Queue.Drain
import SystemDesign.Queue.Rest
import SystemDesign.Tasks.Create
import SystemDesign.Tasks.Agreement
import SystemDesign.Tasks.Shutdown
import SystemDesign.Accounts.Token
import SystemDesign.Accounts.Tables
import SystemDesign.Accounts.Services
import SystemDesign.Accounts.Guard
import SystemDesign.Accounts.Seed
import SystemDesign.Accounts.Permissions
import SystemDesign.Accounts.System
import SystemDesign.Accounts.Evolution
import SystemDesign.Accounts.Secure
import SystemDesign.Accounts.Consistency
import SystemDesign.Accounts.Authorize
import SystemDesign.Accounts.SameSorted
import SystemDesign.Accounts.Stages
import SystemDesign.Accounts.Ensure
import SystemDesign.Accounts.SeedRun
import SystemDesign.Accounts.Btree
import SystemDesign.Accounts.Converge
import SystemDesign.Accounts.Duties
import SystemDesign.Accounts.Ledger
import SystemDesign.Accounts.Passwords
import SystemDesign.Accounts.Attempts
import SystemDesign.Accounts.SignIn
import SystemDesign.Accounts.Schema
import SystemDesign.Accounts.Statements
import SystemDesign.Accounts.Refinement
import SystemDesign.Client.Actions
import SystemDesign.Client.Session
import SystemDesign.Client.Login
import SystemDesign.Edge.Path
import SystemDesign.Edge.Limits
import SystemDesign.Edge.Clients
import SystemDesign.Tenancy.Context
import SystemDesign.Tenancy.Isolation
import SystemDesign.Tenancy.SignedIn
import SystemDesign.Site.Wire
import SystemDesign.Site.System
import SystemDesign.Site.Posts
import SystemDesign.Site.Pages
import SystemDesign.Site.CreateTask
import SystemDesign.Site.Browser
