import Venturi.Sql.Table
import Venturi.Collections.Map
import Venturi.Trace.Run
import Venturi.Trace.Program
import Venturi.Store.Records
import Venturi.Store.Call
import Venturi.Postgres.Adapter
import Venturi.Job.Lifecycle
import Venturi.Postgres.Refine
import Venturi.Postgres.Runs
import Venturi.Job.Epochs
import Venturi.Job.Rows
import Venturi.Job.Lease
import Venturi.Fake.Store
import Venturi.Fake.Rows
import Venturi.Backoff
import Venturi.Queue.Submit
import Venturi.Worker.Settlement
import Venturi.Worker.System
import Venturi.Worker.Journal
import Venturi.Worker.Backstop
import Venturi.Queue.Merge
import Venturi.Worker.Loop
import Venturi.Worker.Slots
import Venturi.Worker.Custody
import Venturi.Worker.Shutdown
import Venturi.Trace.Concurrent
import Venturi.Postgres.Programs
import Venturi.Queue.Accept
import Venturi.Queue.Schedule
import Venturi.Queue.Coalesce
import Venturi.Worker.Dispatch
import Venturi.Worker.Carry
import Venturi.Arith.Window
import Venturi.Worker.Shares
import Venturi.Postgres.Visible
import Venturi.Worker.Wait
import Venturi.Postgres.Locks
import Venturi.Worker.Parking
import Venturi.Store.History
import Venturi.Sql.Keyset
import Venturi.Postgres.Pages
import Venturi.Postgres.Storage
import Venturi.Sql.Group
import Venturi.Store.Stats
import Venturi.Postgres.Stats
import Venturi.Fake.Reads
import Venturi.Fake.Mirror
import Venturi.Fake.Refine
import Venturi.Arith.Saturate
import Venturi.Backoff.Curve
import Venturi.Worker.Retry
import Venturi.Worker.Verdict
import Venturi.Worker.Handover
import Venturi.Worker.Panics
import Venturi.Worker.Selection
import Venturi.Worker.Recovery
import Venturi.Text.Template
import Venturi.Postgres.Names
import Venturi.Collections.Channel
import Venturi.Postgres.Notifier
import Venturi.Worker.Wakeups
import Venturi.Arith.Rounding
import Venturi.Backoff.Exact
import Venturi.Arith.Mixing
import Venturi.Backoff.Mixing
import Venturi.Sql.Session
import Venturi.Sql.Guarded
import Venturi.Sql.Disciplined
import Venturi.Sql.Leak
import Venturi.Sql.Progress
import Venturi.Postgres.Migrate
import Venturi.Postgres.Migrated
import Venturi.Postgres.MigrateRuns
import Venturi.Postgres.LockKey
import Venturi.Worker.Termination
import Venturi.Arith.Digits
import Venturi.Text.Crockford
import Venturi.Sql.Statement
import Venturi.Postgres.Rows
import Venturi.Postgres.Statements
import Venturi.Postgres.StatementCalls
import Venturi.Postgres.StatementRuns
import Venturi.Worker.Fates
import Venturi.Worker.Fleet
import Venturi.Worker.Contexts
