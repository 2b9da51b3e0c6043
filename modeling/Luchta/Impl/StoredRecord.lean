import Luchta.Framework.Decoder
import Luchta.Impl.LocalCache
import Luchta.Impl.RunRecord

/-!
# Records in the local cache

The bytes of `meta.bincode` (`record.rs`, `reason.rs`, `serialization.rs`): the fields of a record in their
order, in bincode with fixed-width integers.

* `StoredRecord`: a run record as it is stored, with the reports of the run.
* `StoredRecord.encode`, `decodeRecord`: `bincode::serde::encode_to_vec`, `decode_from_slice`.
* `LocalCache.readRecord`: `Cache::read`.
-/

namespace Luchta.Impl

open Luchta.Framework

structure ReportMeta where
  filename : String
  mimeType : String
  deriving DecidableEq

structure StoredRecord extends TaskRunRecord where
  reports : List ReportMeta
  deriving DecidableEq

/-! ## Encoding -/

def encodeDigest (d : Digest) : Bytes := d.toList

/-- Two's complement. -/
def encodeI128 (i : Int) : Bytes := leBytes 16 (i % 2 ^ 128).toNat

def encodeI32 (n : Int32) : Bytes := leBytes 4 n.toUInt32.toNat

def encodeUInt64 (n : UInt64) : Bytes := encodeU64 n.toNat

def encodeStoredEntry (entry : FileEntry) : Bytes :=
  encodeStr entry.path ++ (encodeUInt64 entry.size ++ (encodeI128 entry.mtimeNs ++
    (encodeDigest entry.hash ++ encodeBool entry.absent)))

def encodeFileDelta (delta : FileDelta) : Bytes :=
  encodeStr delta.path ++ (encodeDigest delta.priorHash ++ (encodeDigest delta.currentHash ++
    (encodeBool delta.priorAbsent ++ encodeBool delta.currentAbsent)))

def encodeChanges (changed : List FileDelta) (truncated : Bool) (changeCount : UInt32) : Bytes :=
  encodeSeq encodeFileDelta changed ++ (encodeBool truncated ++ encodeU32 changeCount)

def encodeRunReason : RunReason → Bytes
  | .NoPriorRecord => encodeU32 0
  | .PriorFailed => encodeU32 1
  | .NonceChanged => encodeU32 2
  | .TaskSpecMismatch => encodeU32 3
  | .DepOutputMismatch tasks => encodeU32 4 ++ encodeSeq encodeStr tasks
  | .PkgDepMismatch => encodeU32 5
  | .EnvMismatch => encodeU32 6
  | .InputChanged changed truncated changeCount => encodeU32 7 ++ encodeChanges changed truncated changeCount
  | .OutputChanged changed truncated changeCount => encodeU32 8 ++ encodeChanges changed truncated changeCount
  | .CacheHit => encodeU32 9
  | .SharedCacheHit => encodeU32 10

def encodeReportMeta (report : ReportMeta) : Bytes := encodeStr report.filename ++ encodeStr report.mimeType

def encodeOutput (e : String × Digest) : Bytes := encodeStr e.1 ++ encodeDigest e.2

def StoredRecord.encode (r : StoredRecord) : Bytes :=
  encodeU32 r.schemaVersion ++ (encodeDigest r.taskSpecHash ++ (encodeSeq encodeStr r.inputPatterns ++
  (encodeSeq encodeStoredEntry r.inputs ++ (encodeSeq encodeStr r.outputPatterns ++
  (encodeSeq encodeStoredEntry r.outputs ++ (encodeBool r.detectedInputPatterns ++
  (encodeBool r.detectedOutputPatterns ++ (encodeDigest r.outputsHash ++ (encodeDigest r.envHash ++
  (encodeDigest r.pkgDepHash ++ (encodeSeq encodeOutput r.depOutputs.entries ++ (encodeI32 r.exitStatus ++
  (encodeBool r.succeeded ++ (encodeUInt64 r.startUnixMs ++ (encodeUInt64 r.endUnixMs ++
  (encodeSeq encodeReportMeta r.reports ++ (encodeOption encodeStr r.cacheNonce ++
  encodeOption encodeRunReason r.runReason)))))))))))))))))

/-! ## Decoding -/

def decodeDigest : Decoder Digest := do
  let bytes ← takeBytes 32
  if h : bytes.toArray.size = 32 then return ⟨bytes.toArray, h⟩ else failure

def decodeI128 : Decoder Int := do
  let n ← decodeLe 16
  return if n < 2 ^ 127 then n else n - 2 ^ 128

def decodeI32 : Decoder Int32 := do return (UInt32.ofNat (← decodeLe 4)).toInt32

def decodeUInt64 : Decoder UInt64 := do return UInt64.ofNat (← decodeU64)

def decodeStoredEntry : Decoder FileEntry := do
  let path ← decodeStr
  let size ← decodeUInt64
  let mtimeNs ← decodeI128
  let hash ← decodeDigest
  let absent ← decodeBool
  return ⟨path, size, mtimeNs, hash, absent⟩

def decodeFileDelta : Decoder FileDelta := do
  let path ← decodeStr
  let priorHash ← decodeDigest
  let currentHash ← decodeDigest
  let priorAbsent ← decodeBool
  let currentAbsent ← decodeBool
  return ⟨path, priorHash, currentHash, priorAbsent, currentAbsent⟩

def decodeChanges (reason : List FileDelta → Bool → UInt32 → RunReason) : Decoder RunReason := do
  let changed ← decodeSeq decodeFileDelta
  let truncated ← decodeBool
  let changeCount ← decodeU32
  return reason changed truncated changeCount

/-- The fields of a variant. -/
def decodeVariant : Nat → Decoder RunReason
  | 0 => return .NoPriorRecord
  | 1 => return .PriorFailed
  | 2 => return .NonceChanged
  | 3 => return .TaskSpecMismatch
  | 4 => return .DepOutputMismatch (← decodeSeq decodeStr)
  | 5 => return .PkgDepMismatch
  | 6 => return .EnvMismatch
  | 7 => decodeChanges .InputChanged
  | 8 => decodeChanges .OutputChanged
  | 9 => return .CacheHit
  | 10 => return .SharedCacheHit
  | _ => failure

def decodeRunReason : Decoder RunReason := do decodeVariant (← decodeU32).toNat

def decodeReportMeta : Decoder ReportMeta := do
  let filename ← decodeStr
  let mimeType ← decodeStr
  return ⟨filename, mimeType⟩

def decodeRecord : Decoder StoredRecord := do
  let schemaVersion ← decodeU32
  let taskSpecHash ← decodeDigest
  let inputPatterns ← decodeSeq decodeStr
  let inputs ← decodeSeq decodeStoredEntry
  let outputPatterns ← decodeSeq decodeStr
  let outputs ← decodeSeq decodeStoredEntry
  let detectedInputPatterns ← decodeBool
  let detectedOutputPatterns ← decodeBool
  let outputsHash ← decodeDigest
  let envHash ← decodeDigest
  let pkgDepHash ← decodeDigest
  let depOutputs ← decodeMap (decodePair decodeStr decodeDigest)
  let exitStatus ← decodeI32
  let succeeded ← decodeBool
  let startUnixMs ← decodeUInt64
  let endUnixMs ← decodeUInt64
  let reports ← decodeSeq decodeReportMeta
  let cacheNonce ← decodeOption decodeStr
  let runReason ← decodeOption decodeRunReason
  return ⟨⟨schemaVersion, taskSpecHash, inputPatterns, inputs, outputPatterns, outputs, detectedInputPatterns,
    detectedOutputPatterns, outputsHash, envHash, pkgDepHash, depOutputs, exitStatus, succeeded, startUnixMs,
    endUnixMs, cacheNonce, runReason⟩, reports⟩

/-- Whatever follows the record is ignored; older records are a miss. -/
def decodeMeta (bytes : Bytes) : Option StoredRecord := do
  let (record, _) ← decodeRecord.run bytes
  if record.schemaVersion = SCHEMA_VERSION_V5 then some record else none

def LocalCache.readRecord (s : LocalCache StoredRecord) : Option StoredRecord := do
  decodeMeta (← s.volume.read metaFileName)

end Luchta.Impl
