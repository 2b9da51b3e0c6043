import Luchta.Framework.Converge
import Luchta.Impl.Snapshot

/-!
# Histories of observations

A snapshot is the outcome of merging shards and updates in some order and grouping. What it should
have of a scope depends only on the observations that ever went into it.
-/

namespace Luchta.Spec

open Luchta.Framework Luchta.Impl

/-- How a snapshot came about. Loading a bucket starts from the empty snapshot; a shard is either any
stored snapshot or one that came about in the same way. -/
inductive Grouping
  | new
  | shard (g : Grouping) (stored : Snapshot)
  | merge (g h : Grouping)
  | update (g : Grouping) (entries : List SnapshotEntry) (observations : List CacheFileObservation)

namespace Grouping

def snapshot : Grouping → Snapshot
  | new => .new
  | shard g stored => mergeShardEntries g.snapshot stored
  | merge g h => mergeShardEntries g.snapshot h.snapshot
  | update g entries observations => (mergeSnapshotUpdates g.snapshot entries observations).1

/-- Every observation that went into the snapshot. -/
def shown : Grouping → List CacheFileObservation
  | new => []
  | shard g stored => g.shown ++ stored.cacheFiles.entries.flatMap Prod.snd
  | merge g h => g.shown ++ h.shown
  | update g _ observations => g.shown ++ observations

/-- The observations of a scope that went into it. -/
def history (g : Grouping) (scope : Digest) : List CacheFileObservation :=
  g.shown.filter fun o => o.scopeHash = scope

end Grouping

/-- The newest observation of each pair of upstream outputs and state, newest first, cut to the cap. -/
def newestObservations (history : List CacheFileObservation) : List CacheFileObservation :=
  Newest.newestOf (fun o : CacheFileObservation => (o.upstreamOutputsHash, o.stateBlobHash))
    CacheFileObservation.age MAX_OBSERVATIONS_PER_SCOPE history

/-- Whether two observations are both of the current upstream outputs, or neither is. -/
def SameClass (current : Digest) (o p : CacheFileObservation) : Prop :=
  o.upstreamOutputsHash = current ↔ p.upstreamOutputsHash = current

end Luchta.Spec
