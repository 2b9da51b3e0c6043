import Luchta.Framework.Action
import Luchta.Framework.BTreeMap
import Luchta.Framework.BTreeSet
import Luchta.Framework.Backlog
import Luchta.Framework.Bincode
import Luchta.Framework.Blake3
import Luchta.Framework.Calendar
import Luchta.Framework.Channel
import Luchta.Framework.Collect
import Luchta.Framework.Converge
import Luchta.Framework.Correlation
import Luchta.Framework.Decoder
import Luchta.Framework.DiGraph
import Luchta.Framework.EdgeSearch
import Luchta.Framework.Fallible
import Luchta.Framework.FileTree
import Luchta.Framework.Globs
import Luchta.Framework.HashMap
import Luchta.Framework.Layers
import Luchta.Framework.LexicalPath
import Luchta.Framework.Limiter
import Luchta.Framework.Memo
import Luchta.Framework.Mutex
import Luchta.Framework.Newest
import Luchta.Framework.Partial
import Luchta.Framework.Path
import Luchta.Framework.PathText
import Luchta.Framework.PercentEncoding
import Luchta.Framework.Place
import Luchta.Framework.Progress
import Luchta.Framework.Replacement
import Luchta.Framework.Semaphore
import Luchta.Framework.Sorted
import Luchta.Framework.System
import Luchta.Framework.Text
import Luchta.Framework.Ties
import Luchta.Framework.Volume
import Luchta.Framework.Worklist
import Luchta.Impl.Blob
import Luchta.Impl.Bridge
import Luchta.Impl.CacheFiles
import Luchta.Impl.CacheNonce
import Luchta.Impl.CycleOutcome
import Luchta.Impl.Decide
import Luchta.Impl.DelegateHandle
import Luchta.Impl.DepClosureDiff
import Luchta.Impl.DepOutputs
import Luchta.Impl.DependencyPairs
import Luchta.Impl.DependsOn
import Luchta.Impl.Discovery
import Luchta.Impl.Executor
import Luchta.Impl.Hashing
import Luchta.Impl.InputExpansion
import Luchta.Impl.InputPattern
import Luchta.Impl.LocalCache
import Luchta.Impl.Lockfile
import Luchta.Impl.MessageRouter
import Luchta.Impl.PackageGraph
import Luchta.Impl.Pipeline
import Luchta.Impl.PushQueue
import Luchta.Impl.Record
import Luchta.Impl.RemoteIndex
import Luchta.Impl.RemoteOperation
import Luchta.Impl.Resolution
import Luchta.Impl.ResolveInputs
import Luchta.Impl.ResolveOutputs
import Luchta.Impl.RestartWatch
import Luchta.Impl.RunCycle
import Luchta.Impl.RunRecord
import Luchta.Impl.Selection
import Luchta.Impl.SharedLookup
import Luchta.Impl.SharedStore
import Luchta.Impl.SinceInputs
import Luchta.Impl.Snapshot
import Luchta.Impl.SnapshotStore
import Luchta.Impl.StoredRecord
import Luchta.Impl.TaskGraph
import Luchta.Impl.Types
import Luchta.Impl.Validation
import Luchta.Impl.Walker
import Luchta.Impl.WatchRoots
import Luchta.Impl.Watcher
import Luchta.Impl.Waves
import Luchta.Impl.WorkerHandle
import Luchta.Impl.WorkerManager
import Luchta.Impl.WorkerProtocol
import Luchta.Impl.WorkerRuntime
import Luchta.Proof.Blob.Move
import Luchta.Proof.Blob.Restore
import Luchta.Proof.Blob.RoundTrip
import Luchta.Proof.Cache.Connectors
import Luchta.Proof.Cache.Decide
import Luchta.Proof.Cache.InputKey
import Luchta.Proof.Cache.Nonce
import Luchta.Proof.Cache.Streams
import Luchta.Proof.CacheFiles.Accepted
import Luchta.Proof.CacheFiles.Archives
import Luchta.Proof.CacheFiles.PrefixWalk
import Luchta.Proof.CacheFiles.RoundTrip
import Luchta.Proof.CacheFiles.Selection
import Luchta.Proof.CacheFiles.Spelled
import Luchta.Proof.CacheFiles.StaticPrefix
import Luchta.Proof.Cycle.Hang
import Luchta.Proof.Cycle.Outcome
import Luchta.Proof.Cycle.Senders
import Luchta.Proof.Cycle.State
import Luchta.Proof.Cycle.WindDown
import Luchta.Proof.Delegate.Duplicates
import Luchta.Proof.Delegate.Stranding
import Luchta.Proof.Delegate.Waiters
import Luchta.Proof.Deps.Affected
import Luchta.Proof.Deps.Closure
import Luchta.Proof.Deps.InputMatches
import Luchta.Proof.Deps.Pairs
import Luchta.Proof.Deps.Transitive
import Luchta.Proof.Dispatch.FailedResolution
import Luchta.Proof.Dispatch.Outcomes
import Luchta.Proof.Dispatch.StoreKey
import Luchta.Proof.Executor.Admission
import Luchta.Proof.LocalCache.Codec
import Luchta.Proof.LocalCache.Invariant
import Luchta.Proof.LocalCache.Names
import Luchta.Proof.LocalCache.Reads
import Luchta.Proof.Manager.Shutdown
import Luchta.Proof.Remote.Breaker
import Luchta.Proof.Remote.Index
import Luchta.Proof.Remote.MergeKeys
import Luchta.Proof.Remote.Operations
import Luchta.Proof.Remote.PushInvariant
import Luchta.Proof.Remote.PushOrder
import Luchta.Proof.Remote.PushQueue
import Luchta.Proof.Remote.PushStep
import Luchta.Proof.Resolve.Caches
import Luchta.Proof.Resolve.Containment
import Luchta.Proof.Resolve.Entries
import Luchta.Proof.Resolve.Expansion
import Luchta.Proof.Resolve.Matcher
import Luchta.Proof.Resolve.Seeds
import Luchta.Proof.Router.Accounts
import Luchta.Proof.Router.Routing
import Luchta.Proof.Router.Runs
import Luchta.Proof.Runtime.Answers
import Luchta.Proof.Selection.Requests
import Luchta.Proof.Selection.Scope
import Luchta.Proof.Store.BucketKeys
import Luchta.Proof.Store.Converge
import Luchta.Proof.Store.Durable
import Luchta.Proof.Store.Idempotent
import Luchta.Proof.Store.Keys
import Luchta.Proof.Store.Merge
import Luchta.Proof.Store.Rank
import Luchta.Proof.Store.Scope
import Luchta.Proof.TaskGraph.Build
import Luchta.Proof.TaskGraph.DependsOn
import Luchta.Proof.TaskGraph.Determinism
import Luchta.Proof.TaskGraph.Edges
import Luchta.Proof.TaskGraph.Names
import Luchta.Proof.TaskGraph.Outcomes
import Luchta.Proof.TaskGraph.Pipeline
import Luchta.Proof.TaskGraph.Resolved
import Luchta.Proof.TaskGraph.Validation
import Luchta.Proof.TaskGraph.Waves
import Luchta.Proof.Walker.Driver
import Luchta.Proof.Walker.State
import Luchta.Proof.Walker.Weights
import Luchta.Proof.Watch.Batch
import Luchta.Proof.Watch.Bridge
import Luchta.Proof.Watch.Negations
import Luchta.Proof.Watch.RestartRoots
import Luchta.Proof.Watch.WatchRoots
import Luchta.Proof.WatchLoop.Invariant
import Luchta.Proof.WatchLoop.Marks
import Luchta.Proof.WatchLoop.Rest
import Luchta.Proof.Worker.Jobs
import Luchta.Proof.Worker.Stuck
import Luchta.Proof.Worker.Swept
import Luchta.Spec.Observations
import Luchta.Spec.Pipeline
import Luchta.Spec.Resolution
import Luchta.Spec.Schedule
import Luchta.Spec.Validation
