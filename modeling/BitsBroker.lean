import BitsBroker.Lib.Transition
import BitsBroker.Lib.HashMap
import BitsBroker.Lib.Table
import BitsBroker.Lib.Counting
import BitsBroker.Lib.Collect
import BitsBroker.Lib.Positional
import BitsBroker.Lib.Revision
import BitsBroker.Lib.Timeline
import BitsBroker.Lib.Service
import BitsBroker.Lib.Hex
import BitsBroker.RequestId
import BitsBroker.RequestIdRoundTrip
import BitsBroker.Job
import BitsBroker.Server
import BitsBroker.WorkerServer
import BitsBroker.Db.Memory
import BitsBroker.Db.UserSlots
import BitsBroker.Db.BrokerSlots
import BitsBroker.Db.ClaimLoops
import BitsBroker.Db.Nats
import BitsBroker.Db.ReserveSlots
import BitsBroker.Routing.Switch
import BitsBroker.Routing.Validate
import BitsBroker.Runtime.Recovery
import BitsBroker.Db.Backends
import BitsBroker.Runtime.Cluster
import BitsBroker.Runtime.ClusterMoves
import BitsBroker.Runtime.Provenance
import BitsBroker.Runtime.Wellformed
import BitsBroker.Runtime.Ownership
import BitsBroker.Runtime.Failover
import BitsBroker.Runtime.Delivery
import BitsBroker.Runtime.SubmitPath
import BitsBroker.Runtime.Proxy
import BitsBroker.Runtime.Relays
import BitsBroker.Runtime.Forwarding
import BitsBroker.Runtime.Pending
import BitsBroker.Runtime.Backoff
import BitsBroker.Runtime.Reclaim
import BitsBroker.Runtime.JobCounter
import BitsBroker.Runtime.Removal
import BitsBroker.Runtime.Deletion
import BitsBroker.Runtime.Orphan
import BitsBroker.Dispatcher.UserLimit
import BitsBroker.Dispatcher.GuardVisibility
import BitsBroker.Dispatcher.StrictLimit
import BitsBroker.Dispatcher.StrictCap
import BitsBroker.Dispatcher.StrictDecision
import BitsBroker.Dispatcher.StrictRejection
import BitsBroker.Dispatcher.Dispatch
import BitsBroker.Dispatcher.DispatchMoves
import BitsBroker.Dispatcher.ItemOwnership
import BitsBroker.Dispatcher.Removers
import BitsBroker.Dispatcher.Winner
import BitsBroker.Dispatcher.SlotCounts
import BitsBroker.Dispatcher.UserCap
import BitsBroker.Dispatcher.Waiting
import BitsBroker.Dispatcher.RemotePool
import BitsBroker.Dispatcher.Claims
import BitsBroker.Dispatcher.Resolution
import BitsBroker.Dispatcher.PoolRuns
import BitsBroker.Dispatcher.RemoteResults
import BitsBroker.Dispatcher.StaleClaims
import BitsBroker.Config.Dispatcher
import BitsBroker.Dispatcher.PoolCapacity
import BitsBroker.Dispatcher.Queue.Fifo
import BitsBroker.Dispatcher.Queue.Weighted
import BitsBroker.Dispatcher.Queue.CostWeighted
import BitsBroker.Dispatcher.Queue.AgePriority
import BitsBroker.Dispatcher.Queue.SquareRoot
import BitsBroker.Dispatcher.Queue.Kept
import BitsBroker.Dispatcher.Queue.CostOrder
import BitsBroker.Dispatcher.Queue.AgeOrder
import BitsBroker.Dispatcher.Queue.AgeWaits
import BitsBroker.Dispatcher.LocalCall
import BitsBroker.Dispatcher.LocalProgress
import BitsBroker.Dispatcher.LocalAnswer
import BitsBroker.Dispatcher.Permits
import BitsBroker.Dispatcher.QueueDepth
import BitsBroker.Dispatcher.Closing
import BitsBroker.Runtime.Wakeups
import BitsBroker.Runtime.Presence
import BitsBroker.Runtime.Heartbeat
import BitsBroker.Runtime.LiveOwner
import BitsBroker.Runtime.Shutdown
import BitsBroker.Dispatcher.LocalCounts
import BitsBroker.Dispatcher.FailOpen
import BitsBroker.Dispatcher.Admissions
import BitsBroker.Dispatcher.Isolation
import BitsBroker.Dispatcher.UserIdentity
import BitsBroker.Config.Routes
import BitsBroker.Config.ParseRules
import BitsBroker.Config.Attaching
import BitsBroker.Config.StepKeys
import BitsBroker.Config.StepKinds
import BitsBroker.Config.Registration
import BitsBroker.Config.SharedTargets
import BitsBroker.Config.ParsePairs
import BitsBroker.Config.Reached
import BitsBroker.Config.AddRoute
import BitsBroker.Config.Scopes
import BitsBroker.Config.UserLimits
import BitsBroker.Config.Settings
import BitsBroker.Config.Bootstrap
import BitsBroker.Routing.FirstMatch
import BitsBroker.Routing.Attempts
import BitsBroker.Routing.Close
import BitsBroker.Dispatcher.HandedItems
import BitsBroker.Dispatcher.PoolShutdown
import BitsBroker.Dispatcher.Tombstones
import BitsBroker.Dispatcher.Reaper
import BitsBroker.Dispatcher.WorkerBody
import BitsBroker.WorkerRoutes
