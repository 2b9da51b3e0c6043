import Luchta.Framework.Action
import Luchta.Framework.HashMap
import Luchta.Framework.LexicalPath
import Luchta.Framework.PathText
import Luchta.Impl.Snapshot

/-!
# Storing in the shared cache

How a finished run gets into the shared cache: it is checked whether it may be stored, its files and
its metadata are written, and its entry is recorded for the merge into the index at the end. The
advisory files of a task are stored beside it. What is written and recorded before an error stays.

* `classifyOutputs`: whether paths stay in the package, or in the repository.
* `storeWithExecutionDuration`, `storeCacheFilesWithExecutionDuration`.
-/

namespace Luchta.Impl

open Luchta.Framework

inductive IoErrorKind
  | InvalidData
  | NotFound
  | Other
  deriving DecidableEq

structure IoError where
  kind : IoErrorKind
  message : String
  deriving DecidableEq

/-! ## Scopes -/

inductive OutputScope
  | InPackage
  | CrossPackage
  deriving DecidableEq

inductive ScopeError
  | PathEscape (repoRoot packageDir output normalizedOutput : Path)

def classifyOutput (repoRoot packageDir : Path) (scope : OutputScope) (output : Path) :
    Except ScopeError OutputScope :=
  let normalized := (packageDir.join output).lexicalNormalize
  if !normalized.startsWith repoRoot then
    .error (.PathEscape repoRoot packageDir output normalized)
  else if !normalized.startsWith packageDir then .ok .CrossPackage
  else .ok scope

def classifyOutputs (repoRoot packageDir : Path) (resolvedOutputs : List Path) :
    Except ScopeError OutputScope :=
  resolvedOutputs.foldlM
    (classifyOutput repoRoot.lexicalNormalize packageDir.lexicalNormalize) .InPackage

/-! ## The cache -/

inductive BlobWriteResult
  | Written
  | AlreadyExists
  | SkippedTooLarge (bytes : UInt64)
  | NoOutputs
  deriving DecidableEq

inductive StoreOutcome
  | Stored
  | SkippedNotSucceeded
  | SkippedTooFast (durationMs : UInt64)
  | SkippedTooLarge (bytes : UInt64)
  | SkippedCrossPackage
  | Disabled
  deriving DecidableEq

/-- What encoding and writing do. -/
structure StoreIo where
  encodeRecord : TaskRunRecord → Except IoError Bytes
  encodeEntryMeta : EntryMeta → Except IoError Bytes
  entryMetaResidentBytes : EntryMeta → Nat
  writeEntryMeta : Digest → EntryMeta → Except IoError Unit
  writeOutputsBlob : Digest → Path → List Path → UInt64 → Except IoError BlobWriteResult
  writeCacheFileBlob : Digest → Path → List Path → UInt64 → Except IoError BlobWriteResult

structure SharedCache where
  writeBucketKey : Option String
  minStoreDurationMs : UInt64
  sizeCapBytes : UInt64
  /-- The entries that are merged into the index at the end of the run. -/
  pendingEntries : HashMap Digest SnapshotEntry
  pendingCacheFiles : List CacheFileObservation
  /-- The blobs and the metadata that were handed to the remote. -/
  pushedArtifacts : List (Digest × Digest)
  pushedCacheFileBlobs : List Digest

abbrev SharedM := Action SharedCache IoError

structure SharedCacheStoreRequest where
  taskId : String
  toolVersion : Option String
  inputKey : Digest
  outputsHash : Digest
  packageDir : Path
  relOutputPaths : List Path
  record : TaskRunRecord
  stdout : Bytes
  stderr : Bytes
  reports : List EntryReport
  repoRoot : Path

def ENTRY_META_SCHEMA_VERSION : UInt32 := 1
def INLINE_ENTRY_META_MAX_BYTES : Nat := 16 * 1024
def INLINE_ENTRY_META_MAX_RESIDENT_BYTES : Nat := 1024 * 1024

/-- `saturating_add`. -/
def saturatingAdd (a b : UInt64) : UInt64 :=
  if a.toNat + b.toNat < 2 ^ 64 then a + b else 18446744073709551615

def storePreflight (minStoreDurationMs : UInt64) (request : SharedCacheStoreRequest)
    (durationMs : UInt64) : Except IoError (Option StoreOutcome) :=
  if !request.record.succeeded then .ok (some .SkippedNotSucceeded)
  else if durationMs < minStoreDurationMs then .ok (some (.SkippedTooFast durationMs))
  else
    match classifyOutputs request.repoRoot request.packageDir request.relOutputPaths with
    | .ok .InPackage => .ok none
    | .ok .CrossPackage => .ok (some .SkippedCrossPackage)
    | .error _ => .error ⟨.InvalidData, "output path escapes repository root"⟩

section Store

variable (io : StoreIo)

def entryMeta (request : SharedCacheStoreRequest) (record : Bytes) (hasOutputs : Bool) :
    EntryMeta where
  schemaVersion := ENTRY_META_SCHEMA_VERSION
  outputsHash := request.outputsHash
  hasOutputs := hasOutputs
  record := record
  stdout := request.stdout
  stderr := request.stderr
  reports := request.reports

/-- Metadata that is small enough stays in the index. -/
def inlineMeta (entryMeta : EntryMeta) (encoded : Bytes) : Option EntryMeta :=
  if encoded.length ≤ INLINE_ENTRY_META_MAX_BYTES ∧
      io.entryMetaResidentBytes entryMeta ≤ INLINE_ENTRY_META_MAX_RESIDENT_BYTES then some entryMeta
  else none

def snapshotEntry (request : SharedCacheStoreRequest) (durationMs outputBytes : UInt64)
    (inlineMeta : Option EntryMeta) : SnapshotEntry where
  taskId := request.taskId
  inputKey := request.inputKey
  outputsHash := request.outputsHash
  taskSpecHash := request.record.taskSpecHash
  envHash := request.record.envHash
  pkgDepHash := request.record.pkgDepHash
  durationMs := durationMs
  outputBytes := outputBytes
  cachedAtUnixMs := request.record.endUnixMs
  toolVersion := request.toolVersion
  inlineMeta := inlineMeta
  durationTrusted := true

/-- `finish_store`: the artifacts are pushed at once, the entry waits for the end of the run. -/
def finishStore (entry : SnapshotEntry) : SharedM StoreOutcome := do
  modify fun s => { s with
    pushedArtifacts := s.pushedArtifacts ++ [(entry.outputsHash, entry.inputKey)]
    pendingEntries := s.pendingEntries.insert entry.inputKey entry }
  return .Stored

/-- The blob comes first, so that no metadata names one that was never written. -/
def storeBlob (request : SharedCacheStoreRequest) (durationMs outputBytes : UInt64)
    (record : Bytes) : SharedM StoreOutcome := do
  let blobResult ← liftM (io.writeOutputsBlob request.outputsHash request.packageDir
    request.relOutputPaths (← get).sizeCapBytes)
  match blobResult with
  | .SkippedTooLarge bytes => return .SkippedTooLarge bytes
  | .Written | .AlreadyExists | .NoOutputs =>
    let written := entryMeta request record (blobResult ≠ .NoOutputs)
    let encoded ← liftM (io.encodeEntryMeta written)
    match inlineMeta io written encoded with
    | some inline => finishStore (snapshotEntry request durationMs outputBytes (some inline))
    | none =>
      liftM (io.writeEntryMeta request.inputKey written)
      finishStore (snapshotEntry request durationMs outputBytes none)

def storeInternal (request : SharedCacheStoreRequest) (durationMs : UInt64) :
    SharedM StoreOutcome := do
  match ← liftM (storePreflight (← get).minStoreDurationMs request durationMs) with
  | some outcome => return outcome
  | none =>
    let record ← liftM (io.encodeRecord request.record)
    let encoded ← liftM (io.encodeEntryMeta (entryMeta request record (request.relOutputPaths ≠ [])))
    let outputBytes := (request.record.outputs.map FileEntry.size).foldl (· + ·) 0
    let totalBytes := saturatingAdd outputBytes (UInt64.ofNat encoded.length)
    if (← get).sizeCapBytes < totalBytes then return .SkippedTooLarge totalBytes
    else storeBlob io request durationMs outputBytes record

def storeWithExecutionDuration (request : SharedCacheStoreRequest) (executionDurationMs : UInt64) :
    SharedM StoreOutcome := do
  if (← get).writeBucketKey.isNone then return .Disabled
  else storeInternal io request executionDurationMs

/-! ## Advisory files -/

structure CacheFileStoreRequest where
  scopeHash : Digest
  upstreamOutputsHash : Digest
  packageDir : Path
  relativePaths : List Path
  stateHash : Option Digest
  stateBytes : UInt64
  record : TaskRunRecord
  repoRoot : Path

/-- The observation is recorded; without a state it says that there is none. -/
def recordCacheFile (request : CacheFileStoreRequest) : SharedM StoreOutcome := do
  modify fun s => { s with pendingCacheFiles := s.pendingCacheFiles ++ [{
    scopeHash := request.scopeHash
    upstreamOutputsHash := request.upstreamOutputsHash
    stateBlobHash := request.stateHash
    stateBytes := request.stateBytes
    cachedAtUnixMs := request.record.endUnixMs }] }
  return .Stored

def storeCacheFileState (request : CacheFileStoreRequest) : SharedM StoreOutcome :=
  match request.stateHash with
  | none => recordCacheFile request
  | some stateHash => do
    let blobResult ← liftM (io.writeCacheFileBlob stateHash request.packageDir
      request.relativePaths (← get).sizeCapBytes)
    match blobResult with
    | .Written | .AlreadyExists => do
      modify fun s => { s with pushedCacheFileBlobs := s.pushedCacheFileBlobs ++ [stateHash] }
      recordCacheFile request
    | .SkippedTooLarge bytes => return .SkippedTooLarge bytes
    | .NoOutputs => return .Disabled

def storeCacheFilesWithExecutionDuration (request : CacheFileStoreRequest)
    (executionDurationMs : UInt64) : SharedM StoreOutcome := do
  let s ← get
  if s.writeBucketKey.isNone then return .Disabled
  else if !request.record.succeeded then return .SkippedNotSucceeded
  else if executionDurationMs < s.minStoreDurationMs then
    return .SkippedTooFast executionDurationMs
  else
    match classifyOutputs request.repoRoot request.packageDir request.relativePaths with
    | .error _ => throw ⟨.InvalidData, "cache-file path escapes repository root"⟩
    | .ok .CrossPackage => return .SkippedCrossPackage
    | .ok .InPackage =>
      if s.sizeCapBytes < request.stateBytes then return .SkippedTooLarge request.stateBytes
      else storeCacheFileState io request

end Store

end Luchta.Impl
