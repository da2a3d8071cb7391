import StreamGate.Lib.Prog
import StreamGate.Lib.Interleave
import StreamGate.Lib.Decimal
import StreamGate.Redis.World
import StreamGate.State.Manager
import StreamGate.State.Conflict
import StreamGate.State.Apart
import StreamGate.State.Failures
import StreamGate.State.Heartbeats
import StreamGate.Lib.Runs
import StreamGate.State.Scan
import StreamGate.State.Tally
import StreamGate.Scheduler.TaskScheduler
import StreamGate.Scheduler.Cleanup
import StreamGate.Scheduler.Ops
import StreamGate.Scheduler.PlayerCount
import StreamGate.Scheduler.Listings
import StreamGate.Scheduler.Orphans
import StreamGate.Scheduler.Rollback
import StreamGate.Scheduler.PublishDone
import StreamGate.Scheduler.Reclaim
import StreamGate.Hook.Responses
import StreamGate.Auth.Soundness
import StreamGate.Auth.Transparency
import StreamGate.Pool.Shutdown
import StreamGate.DB.Closing
import StreamGate.DB.Leftovers
import StreamGate.DB.Waiting
import StreamGate.DB.Guards
import StreamGate.Scheduler.Answers
import StreamGate.Auth.Negative
import StreamGate.Auth.Misses
import StreamGate.State.Touch
import StreamGate.State.Traces
import StreamGate.State.Batches
import StreamGate.State.Cascade
import StreamGate.State.Again
import StreamGate.State.ScanAlone
import StreamGate.Task.Serializer
import StreamGate.Pool.Stats
import StreamGate.Node.RoundRobin
import StreamGate.Node.Routing
import StreamGate.Hook.Params
import StreamGate.Config.Spacing
import StreamGate.Metrics.Acquire
import StreamGate.Metrics.Owners
import StreamGate.Metrics.Merge
import StreamGate.Metrics.SeqLock
import StreamGate.DB.Wakeups
import StreamGate.Hook.Gateway
import StreamGate.Scheduler.Lifecycle
import StreamGate.Scheduler.Refinement
import StreamGate.Lib.Debts
import StreamGate.State.Expiry
import StreamGate.Scheduler.KeepAlive
import StreamGate.Pool.Queue
import StreamGate.Hook.Server
import StreamGate.Lib.Seen
import StreamGate.Config.Concurrent
import StreamGate.Lib.Checks
import StreamGate.Node.File
import StreamGate.Hook.Line
import StreamGate.Scheduler.Fresh
import StreamGate.State.Order
