import Luchta.Framework.Bincode
import Luchta.Framework.BTreeMap
import Mathlib.Data.String.Basic

/-!
# Run records

What the cache remembers of one task execution: the fingerprints of the resolved inputs and outputs,
and the hashes of everything else a skip decision looks at.
-/

namespace Luchta.Impl

open Luchta.Framework

/-- A 32-byte hash. -/
abbrev Digest := Vector UInt8 32

def Digest.zero : Digest := Vector.replicate 32 0

/-- Snapshot of one resolved input or output path; `absent` marks a declared literal path that did
not exist at scan time. -/
structure FileEntry where
  path : String
  size : UInt64
  mtimeNs : Int
  hash : Digest
  absent : Bool
  deriving DecidableEq

/-- `FileEntry::absent`: the sentinel entry of a missing path. -/
def FileEntry.absentEntry (path : String) : FileEntry where
  path := path
  size := 0
  mtimeNs := 0
  hash := Digest.zero
  absent := true

structure FileDelta where
  path : String
  priorHash : Digest
  currentHash : Digest
  priorAbsent : Bool
  currentAbsent : Bool
  deriving DecidableEq

inductive RunReason
  | NoPriorRecord
  | PriorFailed
  | NonceChanged
  | TaskSpecMismatch
  | DepOutputMismatch (tasks : List String)
  | PkgDepMismatch
  | EnvMismatch
  | InputChanged (changed : List FileDelta) (truncated : Bool) (changeCount : UInt32)
  | OutputChanged (changed : List FileDelta) (truncated : Bool) (changeCount : UInt32)
  | CacheHit
  | SharedCacheHit
  deriving DecidableEq

structure TaskRunRecord where
  schemaVersion : UInt32
  taskSpecHash : Digest
  inputPatterns : List String
  inputs : List FileEntry
  outputPatterns : List String
  outputs : List FileEntry
  /-- `inputPatterns` came from worker-detected inputs instead of declared task inputs. -/
  detectedInputPatterns : Bool
  /-- `outputPatterns` came from worker-detected outputs instead of declared task outputs. -/
  detectedOutputPatterns : Bool
  outputsHash : Digest
  envHash : Digest
  pkgDepHash : Digest
  depOutputs : BTreeMap String Digest
  exitStatus : Int32
  succeeded : Bool
  startUnixMs : UInt64
  endUnixMs : UInt64
  cacheNonce : Option String
  runReason : Option RunReason
  deriving DecidableEq

end Luchta.Impl
