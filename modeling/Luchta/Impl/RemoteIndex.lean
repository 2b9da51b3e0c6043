import Luchta.Impl.SnapshotStore

/-!
# The remote index

Clients with local buckets of their own share one remote bucket (`remote.rs`). Each of them copies
remote shards down (`pull_snapshot_commit`), merges updates into its own bucket
(`merge_updates_with_outcome`) and pushes what a merge has changed (`push_index_merge`): it uploads
the consolidated shard and, only if that succeeded, deletes on the remote what the shard subsumes.
Steps of all clients interleave, those of several merges and pushes of one client included. A remote
operation may succeed, fail, or fail for the client and be performed later; the client may disable
the remote at any time, and a step may never come.

Left out: statistics, warnings, and the `.merged` sidecars, which nothing reads.
-/

namespace Luchta.Impl

open Luchta.Framework

/-- What a push does next. -/
inductive PushPhase
  | upload (merge : MergeEntryOutcome)
  | delete (todo : List String)
  | done
  deriving DecidableEq

/-- An operation that the client has given up on, and that may still be performed. -/
inductive RemoteOp
  | upload (upload : SnapshotUpload)
  | delete (shardId : String)
  deriving DecidableEq

inductive OpResult
  | ok
  | failed
  | late
  deriving DecidableEq

structure RemoteClient where
  store : StoreState
  pushes : List PushPhase
  disabled : Bool
  deriving DecidableEq

structure RemoteIndex where
  remote : HashMap String Bytes
  inFlight : List RemoteOp
  clients : List RemoteClient
  /-- The shards that the remote has or had. -/
  uploaded : List String
  /-- The shards that a client set out to delete, with the one it uploaded for them. -/
  replaced : List (String × String)
  deriving DecidableEq

inductive ClientLabel
  /-- `merge_updates_with_outcome` begins. -/
  | start (entries : List SnapshotEntry) (observations : List CacheFileObservation)
  | merge (l : Nat × MergeLabel)
  /-- The outcome of a merge is queued. -/
  | enqueue (i : Nat)
  | pull (shardId : String)
  | push (i : Nat) (result : OpResult)
  | setDisabled (disabled : Bool)

inductive RemoteLabel
  | client (i : Nat) (l : ClientLabel)
  /-- An operation that was given up on is performed. -/
  | land (i : Nat)
  /-- Somebody else uploads what no client here can decode. -/
  | foreign (shardId : String) (bytes : Bytes)

section Index

variable (codec : SnapshotCodec) (shardKey : String)

def RemoteIndex.apply (s : RemoteIndex) : RemoteOp → RemoteIndex
  | .upload upload =>
    { s with
      remote := s.remote.insert upload.shardId upload.shardBytes
      uploaded := upload.shardId :: s.uploaded }
  | .delete shardId => { s with remote := s.remote.erase shardId }

/-- Performs an operation as far as its result says. -/
def RemoteIndex.perform (s : RemoteIndex) (op : RemoteOp) : OpResult → RemoteIndex
  | .ok => s.apply op
  | .failed => s
  | .late => { s with inFlight := op :: s.inFlight }

/-- `push_index_merge`. -/
def RemoteIndex.push (s : RemoteIndex) (disabled : Bool) (result : OpResult) :
    PushPhase → Option (RemoteIndex × PushPhase)
  | .upload merge =>
    if disabled then some (s, .done)
    else match merge.newSnapshotUpload with
      | none => some (s, .done)
      | some upload =>
        let t := s.perform (.upload upload) result
        if result = .ok then
          some ({ t with replaced := t.replaced ++
            merge.subsumedShardIds.map fun id => (id, upload.shardId) },
            .delete merge.subsumedShardIds)
        else some (t, .done)
  | .delete [] => some (s, .done)
  | .delete (id :: todo) =>
    if disabled then some (s, .done)
    else some (s.perform (.delete id) result, .delete todo)
  | .done => none

def RemoteIndex.setClient (s : RemoteIndex) (i : Nat) (c : RemoteClient) : RemoteIndex :=
  { s with clients := s.clients.set i c }

def RemoteIndex.clientStep (s : RemoteIndex) (i : Nat) (c : RemoteClient) :
    ClientLabel → Option RemoteIndex
  | .start entries observations =>
    some (s.setClient i { c with store :=
      { c.store with merges := c.store.merges ++ [⟨entries, observations, .create⟩] } })
  | .merge l => (c.store.step codec shardKey l).map fun store =>
      s.setClient i { c with store := store }
  | .enqueue j =>
    match (c.store.merges[j]?).map Merge.phase with
    | some (.done outcome) =>
      some (s.setClient i { c with pushes := c.pushes ++ [.upload outcome] })
    | _ => none
  | .pull shardId =>
    if c.disabled then none
    else (s.remote.lookup shardId).map fun bytes =>
      s.setClient i { c with store := { c.store with bucket :=
        { c.store.bucket with files := c.store.bucket.files.insert shardId bytes } } }
  | .push j result => do
    let phase ← c.pushes[j]?
    let (t, phase') ← s.push c.disabled result phase
    return t.setClient i { c with pushes := c.pushes.set j phase' }
  | .setDisabled disabled => some (s.setClient i { c with disabled := disabled })

def RemoteIndex.step (s : RemoteIndex) : RemoteLabel → Option RemoteIndex
  | .client i l => (s.clients[i]?).bind fun c => s.clientStep codec shardKey i c l
  | .land i => (s.inFlight[i]?).map fun op => { s with inFlight := s.inFlight.eraseIdx i }.apply op
  | .foreign shardId bytes =>
    if codec.decodeSnapshot bytes = none ∧ s.remote.lookup shardId = none then
      some { s with remote := s.remote.insert shardId bytes }
    else none

def remoteIndex (init : RemoteIndex) : System RemoteIndex RemoteLabel where
  init s := s = init
  step := RemoteIndex.step codec shardKey

/-- Some decodable shard on the remote has this input key. -/
def RemoteIndex.hasKey (s : RemoteIndex) (key : String) : Bool :=
  (⟨none, s.remote⟩ : Bucket).hasKey codec key

end Index

end Luchta.Impl
