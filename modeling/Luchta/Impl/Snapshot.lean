import Luchta.Framework.Sorted
import Luchta.Impl.Record
import Mathlib.Data.Nat.Digits.Lemmas
import Mathlib.Data.Prod.Lex
import Mathlib.Order.OrderDual

/-!
# Shared-cache snapshots

A snapshot maps input keys to cached runs, and scopes to the newest cache-file states observed. This
module has its data, how shards and updates are merged into it, and how its stored bytes are read.
-/

namespace Luchta.Impl

open Luchta.Framework

/-! ## Data -/

structure EntryReport where
  filename : String
  mimeType : String
  content : String
  deriving DecidableEq

structure EntryMeta where
  schemaVersion : UInt32
  outputsHash : Digest
  hasOutputs : Bool
  record : Bytes
  stdout : Bytes
  stderr : Bytes
  reports : List EntryReport
  deriving DecidableEq

/-- What schema 2 stores of a cached run. -/
structure SnapshotEntryV2 where
  taskId : String
  inputKey : Digest
  outputsHash : Digest
  taskSpecHash : Digest
  envHash : Digest
  pkgDepHash : Digest
  durationMs : UInt64
  outputBytes : UInt64
  cachedAtUnixMs : UInt64
  toolVersion : Option String
  deriving DecidableEq

structure SnapshotEntry extends SnapshotEntryV2 where
  inlineMeta : Option EntryMeta
  /-- Whether `durationMs` measures execution after semaphore admission. -/
  durationTrusted : Bool
  deriving DecidableEq

/-- One advisory cache-file state observed after a successful task; without a blob, a tombstone. -/
structure CacheFileObservation where
  scopeHash : Digest
  upstreamOutputsHash : Digest
  stateBlobHash : Option Digest
  stateBytes : UInt64
  cachedAtUnixMs : UInt64
  deriving DecidableEq

structure Snapshot where
  schemaVersion : UInt32
  entries : BTreeMap String SnapshotEntry
  cacheFiles : BTreeMap String (List CacheFileObservation)
  deriving DecidableEq

def SNAPSHOT_SCHEMA_VERSION : UInt32 := 4
def SNAPSHOT_SCHEMA_VERSION_V2 : UInt32 := 2
def SNAPSHOT_SCHEMA_VERSION_V3 : UInt32 := 3
def MAX_OBSERVATIONS_PER_SCOPE : Nat := 8

def Snapshot.new : Snapshot := ⟨SNAPSHOT_SCHEMA_VERSION, .empty, .empty⟩

/-! ## Hexadecimal names -/

def hexDigit (n : Nat) : Char := "0123456789abcdef".toList.getD n '0'

def toHex (d : Digest) : String :=
  String.ofList (d.toList.flatMap fun b => [hexDigit (b.toNat / 16), hexDigit (b.toNat % 16)])

theorem hexDigit_injOn : ∀ m < 16, ∀ n < 16, hexDigit m = hexDigit n → m = n := by decide

theorem toHex_injective : Function.Injective toHex := by
  have hlist : ∀ l m : List UInt8,
      l.flatMap (fun b => [hexDigit (b.toNat / 16), hexDigit (b.toNat % 16)]) =
        m.flatMap (fun b => [hexDigit (b.toNat / 16), hexDigit (b.toNat % 16)]) → l = m := by
    intro l
    induction l with
    | nil =>
      intro m h
      cases m with
      | nil => rfl
      | cons b m => contradiction
    | cons a l ih =>
      intro m h
      cases m with
      | nil => contradiction
      | cons b m =>
        simp only [List.flatMap_cons, List.cons_append, List.nil_append, List.cons.injEq] at h
        obtain ⟨hhigh, hlow, hrest⟩ := h
        have ha := a.toNat_lt
        have hb := b.toNat_lt
        have hdiv := hexDigit_injOn _ (by omega) _ (by omega) hhigh
        have hmod := hexDigit_injOn _ (Nat.mod_lt _ (by decide)) _ (Nat.mod_lt _ (by decide)) hlow
        have hab : a = b := UInt8.toNat_inj.1 (by omega)
        rw [hab, ih m hrest]
  intro d e h
  exact Vector.toList_inj.1 (hlist _ _ (String.ofList_injective h))

def inputKeyHex (inputKey : Digest) : String := toHex inputKey

/-! ## Observations -/

/-- Byte arrays are ordered as the numbers they write in base 256, the first byte leading. -/
def digestNat (d : Digest) : Nat := Nat.ofDigits 256 (d.toList.reverse.map UInt8.toNat)

/-- A tombstone comes before every blob of the same age. -/
def blobRank : Option Digest → Nat
  | some blob => digestNat blob
  | none => 256 ^ 32

/-- What `observation_newest_first` compares, in order. -/
def CacheFileObservation.age (o : CacheFileObservation) : Nat ×ₗ Nat ×ₗ Nat :=
  toLex (o.cachedAtUnixMs.toNat, toLex (digestNat o.upstreamOutputsHash, blobRank o.stateBlobHash))

/-- Replace the state of the same upstream outputs and blob by a newer one, or else push it. -/
def upsertObservation (o : CacheFileObservation) :
    List CacheFileObservation → List CacheFileObservation × Bool
  | [] => ([o], true)
  | existing :: rest =>
    if existing.upstreamOutputsHash = o.upstreamOutputsHash ∧
        existing.stateBlobHash = o.stateBlobHash then
      if existing.cachedAtUnixMs < o.cachedAtUnixMs then (o :: rest, true)
      else (existing :: rest, false)
    else (existing :: (upsertObservation o rest).1, (upsertObservation o rest).2)

def observationNewestFirst (l : List CacheFileObservation) : List CacheFileObservation :=
  sortBy (fun o => OrderDual.toDual o.age) l

def observeCandidates (candidates : List CacheFileObservation) (o : CacheFileObservation) :
    List CacheFileObservation × Bool :=
  let u := upsertObservation o candidates
  let sorted := observationNewestFirst u.1
  (sorted.take MAX_OBSERVATIONS_PER_SCOPE,
    u.2 || decide (MAX_OBSERVATIONS_PER_SCOPE < sorted.length))

/-- One round of `merge_cache_file_observations`, with its `changed` flag. -/
def mergeCacheFileObservation (s : Snapshot × Bool) (o : CacheFileObservation) : Snapshot × Bool :=
  let key := inputKeyHex o.scopeHash
  let r := observeCandidates ((s.1.cacheFiles.get? key).getD []) o
  ({ s.1 with cacheFiles := s.1.cacheFiles.insert key r.1 }, s.2 || r.2)

def mergeCacheFileObservations (snapshot : Snapshot) (observations : List CacheFileObservation) :
    Snapshot × Bool :=
  observations.foldl mergeCacheFileObservation (snapshot, false)

/-- What `select_cache_file_observation` compares, in order. -/
def CacheFileObservation.preference (o : CacheFileObservation) (currentUpstreamOutputsHash : Digest) :
    Bool ×ₗ Nat ×ₗ Nat ×ₗ Nat :=
  toLex (decide (o.upstreamOutputsHash = currentUpstreamOutputsHash), o.age)

/-- The last of the candidates that none exceeds. -/
def selectCacheFileObservation (candidates : List CacheFileObservation)
    (currentUpstreamOutputsHash : Digest) : Option CacheFileObservation :=
  candidates.foldl (fun best o => some (best.elim o fun b =>
    if o.preference currentUpstreamOutputsHash < b.preference currentUpstreamOutputsHash then b
    else o)) none

/-! ## Entries -/

/-- A trusted duration replaces an untrusted one, and inline metadata is kept once it is there. -/
def enrichSameOutputEntry (existing incoming : SnapshotEntry) : SnapshotEntry × Bool :=
  if !existing.durationTrusted && incoming.durationTrusted then
    ({ incoming with inlineMeta := incoming.inlineMeta.or existing.inlineMeta }, true)
  else if existing.inlineMeta.isNone && incoming.inlineMeta.isSome then
    ({ existing with inlineMeta := incoming.inlineMeta }, true)
  else (existing, false)

/-- Of two different outputs for a key, the first one stays. -/
def mergeShardEntry (merged : Snapshot) (e : String × SnapshotEntry) : Snapshot :=
  match merged.entries.get? e.1 with
  | none => { merged with entries := merged.entries.insert e.1 e.2 }
  | some existing =>
    if existing.outputsHash = e.2.outputsHash then
      { merged with entries := merged.entries.insert e.1 (enrichSameOutputEntry existing e.2).1 }
    else merged

def mergeShardEntries (merged shard : Snapshot) : Snapshot :=
  (mergeCacheFileObservations (shard.entries.entries.foldl mergeShardEntry merged)
    (shard.cacheFiles.entries.flatMap Prod.snd)).1

structure MergeChanges where
  changed : Bool
  sawConflict : Bool
  deriving DecidableEq

def mergeSnapshotEntry (s : Snapshot × MergeChanges) (entry : SnapshotEntry) :
    Snapshot × MergeChanges :=
  let key := inputKeyHex entry.inputKey
  match s.1.entries.get? key with
  | some existing =>
    if existing.outputsHash = entry.outputsHash then
      let e := enrichSameOutputEntry existing entry
      ({ s.1 with entries := s.1.entries.insert key e.1 },
        { s.2 with changed := s.2.changed || e.2 })
    else (s.1, { s.2 with sawConflict := true })
  | none =>
    ({ s.1 with entries := s.1.entries.insert key entry }, { s.2 with changed := true })

def mergeSnapshotUpdates (snapshot : Snapshot) (entries : List SnapshotEntry)
    (observations : List CacheFileObservation) : Snapshot × MergeChanges :=
  let s := entries.foldl mergeSnapshotEntry (snapshot, ⟨false, false⟩)
  let c := mergeCacheFileObservations s.1 observations
  (c.1, { s.2 with changed := s.2.changed || c.2 })

/-! ## Stored bytes -/

/-- The libraries between a snapshot and its file: bincode, zstd and blake3. -/
structure SnapshotCodec where
  encode : Snapshot → Bytes
  decodeVersion : Bytes → Option UInt32
  decodeV2 : Bytes → Option (BTreeMap String SnapshotEntryV2)
  decodeV3 : Bytes → Option (BTreeMap String SnapshotEntry)
  decodeV4 : Bytes → Option Snapshot
  compress : Bytes → Option Bytes
  decompress : Bytes → Option Bytes
  blake3 : Bytes → Digest

def ZSTD_FRAME_MAGIC : Bytes := [0x28, 0xB5, 0x2F, 0xFD]

/-- Durations of schema 2 include queueing time, so they are not trusted. -/
def SnapshotEntryV2.upgrade (entry : SnapshotEntryV2) : SnapshotEntry :=
  { entry with inlineMeta := none, durationTrusted := false }

namespace SnapshotCodec

variable (codec : SnapshotCodec)

/-- Bytes without the frame magic are read as they are. -/
def decompressSnapshotBytes (bytes : Bytes) : Option Bytes :=
  if ZSTD_FRAME_MAGIC.isPrefixOf bytes then codec.decompress bytes else some bytes

def decodeSnapshot (bytes : Bytes) : Option Snapshot := do
  let raw ← codec.decompressSnapshotBytes bytes
  let schemaVersion ← codec.decodeVersion raw
  if schemaVersion = SNAPSHOT_SCHEMA_VERSION_V2 then
    let entries ← codec.decodeV2 raw
    return ⟨SNAPSHOT_SCHEMA_VERSION,
      .ofList (entries.entries.map fun e => (e.1, e.2.upgrade)), .empty⟩
  else if schemaVersion = SNAPSHOT_SCHEMA_VERSION then codec.decodeV4 raw
  else if schemaVersion = SNAPSHOT_SCHEMA_VERSION_V3 then
    let entries ← codec.decodeV3 raw
    return ⟨SNAPSHOT_SCHEMA_VERSION, entries, .empty⟩
  else none

/-- A shard is named by the hash of its uncompressed bytes. -/
def shardId (snapshot : Snapshot) : String := toHex (codec.blake3 (codec.encode snapshot))

end SnapshotCodec

end Luchta.Impl
