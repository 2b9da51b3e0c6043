import Luchta.Framework.HashMap
import Luchta.Framework.System
import Luchta.Impl.Snapshot

/-!
# The snapshot store

`merge_updates_with_outcome` on one bucket, as a system in which any number of merges take their file
operations one at a time and in any order: a merge lists the bucket, reads the shards it found, writes
their union with its own updates as a new shard, and deletes the shards that went into it.
-/

namespace Luchta.Impl

open Luchta.Framework

inductive SnapshotShardSource
  | LegacyFile
  | ShardFile
  deriving DecidableEq

structure SnapshotShard where
  shardId : String
  source : SnapshotShardSource
  deriving DecidableEq

def SnapshotShard.deletableShardId (shard : SnapshotShard) : Option String :=
  match shard.source with
  | .LegacyFile => none
  | .ShardFile => some shard.shardId

/-- The snapshot files of one bucket; only files with the snapshot extension count. -/
structure Bucket where
  legacy : Option Bytes
  files : HashMap String Bytes
  deriving DecidableEq

/-- The snapshot merged so far, and the shards it was merged from. -/
structure MergedShards where
  merged : Snapshot
  sawAny : Bool
  mergedShardIds : List String
  deriving DecidableEq

def MergedShards.snapshot (m : MergedShards) : Option Snapshot := if m.sawAny then some m.merged else none

structure SnapshotUpload where
  shardId : String
  shardBytes : Bytes
  deriving DecidableEq

inductive MergeResult
  | Inserted
  | IdempotentNoop
  | ConflictKeptExisting
  | SkippedLockUnavailable
  deriving DecidableEq

structure MergeEntryOutcome where
  result : MergeResult
  newSnapshotUpload : Option SnapshotUpload
  subsumedShardIds : List String
  deriving DecidableEq

def MergeEntryOutcome.fromResult (result : MergeResult) : MergeEntryOutcome := ⟨result, none, []⟩

/-- What a merge does next. -/
inductive MergePhase
  | create
  | list
  | read (visible todo : List SnapshotShard) (loaded : MergedShards)
  | check (visible : List SnapshotShard) (mergedShardIds : List String) (consolidated : Snapshot)
  | write (visible : List SnapshotShard) (mergedShardIds : List String) (consolidated : Snapshot)
  | delete (upload : SnapshotUpload) (subsumed todo : List String)
  | done (outcome : MergeEntryOutcome)
  deriving DecidableEq

structure Merge where
  entries : List SnapshotEntry
  cacheFileObservations : List CacheFileObservation
  phase : MergePhase
  deriving DecidableEq

/-- One operation; a `Bool` says whether the file system performed it. -/
inductive MergeLabel
  | create (ok : Bool)
  | list (names : List String)
  | read (ok : Bool)
  | merge
  | check
  | write (ok : Bool)
  | delete (ok : Bool)

section Store

variable (codec : SnapshotCodec) (shardKey : String)

def legacyShardId : String := "legacy-" ++ shardKey

/-- The legacy file and the shard files by id. Other merges create and delete files while a directory
is being listed, so all that is known of `names` is that the listing returned them. -/
def Bucket.listSnapshotShards (b : Bucket) (names : List String) : List SnapshotShard :=
  sortBy SnapshotShard.shardId
    ((if b.legacy.isSome then [⟨legacyShardId shardKey, .LegacyFile⟩] else []) ++
      names.map fun name => ⟨name, .ShardFile⟩)

def Bucket.readShard (b : Bucket) (shard : SnapshotShard) : Option Bytes :=
  match shard.source with
  | .LegacyFile => b.legacy
  | .ShardFile => b.files.lookup shard.shardId

/-- A shard that is gone, unreadable or undecodable is skipped. -/
def MergedShards.load (m : MergedShards) (shard : SnapshotShard) (bytes : Option Bytes) :
    MergedShards :=
  match bytes.bind codec.decodeSnapshot with
  | none => m
  | some snapshot =>
    { merged := mergeShardEntries m.merged snapshot
      sawAny := true
      mergedShardIds := shard.shardId :: m.mergedShardIds }

/-- The shards that went into the consolidated one, less the legacy file. -/
def subsumedShardIds (visible : List SnapshotShard) (mergedShardIds : List String) : List String :=
  (visible.filter fun shard => shard.shardId ∈ mergedShardIds).filterMap
    SnapshotShard.deletableShardId

def Merge.step (b : Bucket) (m : Merge) (l : MergeLabel) : Option (Bucket × MergePhase) :=
  match m.phase, l with
  | .create, .create ok =>
    if m.entries = [] ∧ m.cacheFileObservations = [] then
      some (b, .done (.fromResult .IdempotentNoop))
    else if ok then some (b, .list)
    else some (b, .done (.fromResult .SkippedLockUnavailable))
  | .list, .list names =>
    let visible := b.listSnapshotShards shardKey names
    some (b, .read visible visible ⟨.new, false, []⟩)
  | .read visible (shard :: todo) loaded, .read ok =>
    some (b, .read visible todo
      (loaded.load codec shard (if ok then b.readShard shard else none)))
  | .read visible [] loaded, .merge =>
    let (consolidated, changes) := mergeSnapshotUpdates (loaded.snapshot.getD .new) m.entries
      m.cacheFileObservations
    if changes.changed then some (b, .check visible loaded.mergedShardIds consolidated)
    else some (b, .done (.fromResult
      (if changes.sawConflict then .ConflictKeptExisting else .IdempotentNoop)))
  | .check visible ids consolidated, .check =>
    if (b.files.lookup (codec.shardId consolidated)).isSome then
      some (b, .done (.fromResult .IdempotentNoop))
    else some (b, .write visible ids consolidated)
  | .write visible ids consolidated, .write ok =>
    match codec.compress (codec.encode consolidated) with
    | none => some (b, .done (.fromResult .SkippedLockUnavailable))
    | some onDisk =>
      if ok then
        let id := codec.shardId consolidated
        let subsumed := subsumedShardIds visible ids
        some ({ b with files := b.files.insert id onDisk },
          .delete ⟨id, onDisk⟩ subsumed subsumed)
      else some (b, .done (.fromResult .SkippedLockUnavailable))
  | .delete upload subsumed (id :: todo), .delete ok =>
    some (if ok then { b with files := b.files.erase id } else b, .delete upload subsumed todo)
  | .delete upload subsumed [], .merge =>
    some (b, .done ⟨.Inserted, some upload, subsumed⟩)
  | _, _ => none

structure StoreState where
  bucket : Bucket
  merges : List Merge
  deriving DecidableEq

/-- Merge `l.1` takes a step. -/
def StoreState.step (s : StoreState) (l : Nat × MergeLabel) : Option StoreState := do
  let m ← s.merges[l.1]?
  let (bucket, phase) ← m.step codec shardKey s.bucket l.2
  return { bucket := bucket, merges := s.merges.set l.1 { m with phase := phase } }

/-- Any number of merges, none of which has started. -/
def storeSystem (init : Bucket) : System StoreState (Nat × MergeLabel) where
  init s := s.bucket = init ∧ ∀ m ∈ s.merges, m.phase = .create
  step := StoreState.step codec shardKey

/-- The union of the shards that can be decoded has this input key. -/
def Bucket.hasKey (b : Bucket) (key : String) : Bool :=
  (b.legacy.toList ++ b.files.entries.map Sigma.snd).any fun bytes =>
    (codec.decodeSnapshot bytes).any fun s => (s.entries.get? key).isSome

/-! ## A merge with the bucket to itself -/

def Bucket.visibleShards (b : Bucket) : List SnapshotShard := b.listSnapshotShards shardKey b.files.keys

def Bucket.loadMergedSnapshot (b : Bucket) : MergedShards :=
  (b.visibleShards shardKey).foldl (fun m shard => m.load codec shard (b.readShard shard))
    ⟨.new, false, []⟩

def Bucket.load (b : Bucket) : Option Snapshot := (b.loadMergedSnapshot codec shardKey).snapshot

def Bucket.lookup (b : Bucket) (entryKey : String) : Option SnapshotEntry :=
  (b.load codec shardKey).bind fun snapshot => snapshot.entries.get? entryKey

/-- The union of what the bucket has with the updates. -/
def Bucket.consolidated (b : Bucket) (entries : List SnapshotEntry)
    (cacheFileObservations : List CacheFileObservation) : Snapshot :=
  (mergeSnapshotUpdates ((b.load codec shardKey).getD .new) entries cacheFileObservations).1

/-- Which of the operations that a merge cannot do without the file system performs. -/
structure FileOps where
  create : Bool
  write : Bool

def Bucket.deleteShards (b : Bucket) (ids : List String) : Bucket :=
  { b with files := ids.foldl (fun files id => files.erase id) b.files }

def Bucket.writeConsolidatedShard (ops : FileOps) (b : Bucket) (consolidated : Snapshot)
    (mergedShardIds : List String) : Bucket × MergeEntryOutcome :=
  let id := codec.shardId consolidated
  if (b.files.lookup id).isSome then (b, .fromResult .IdempotentNoop)
  else match codec.compress (codec.encode consolidated) with
    | none => (b, .fromResult .SkippedLockUnavailable)
    | some onDisk =>
      if ops.write then
        let subsumed := subsumedShardIds (b.visibleShards shardKey) mergedShardIds
        ({ b with files := b.files.insert id onDisk }.deleteShards subsumed,
          ⟨.Inserted, some ⟨id, onDisk⟩, subsumed⟩)
      else (b, .fromResult .SkippedLockUnavailable)

def Bucket.mergeUpdatesWithOutcome (ops : FileOps) (b : Bucket) (entries : List SnapshotEntry)
    (cacheFileObservations : List CacheFileObservation) : Bucket × MergeEntryOutcome :=
  if entries = [] ∧ cacheFileObservations = [] then (b, .fromResult .IdempotentNoop)
  else if !ops.create then (b, .fromResult .SkippedLockUnavailable)
  else
    let loaded := b.loadMergedSnapshot codec shardKey
    let (consolidated, changes) := mergeSnapshotUpdates (loaded.snapshot.getD .new) entries
      cacheFileObservations
    if changes.changed then
      b.writeConsolidatedShard codec shardKey ops consolidated loaded.mergedShardIds
    else (b, .fromResult (if changes.sawConflict then .ConflictKeptExisting else .IdempotentNoop))

end Store

end Luchta.Impl
