import Luchta.Framework.Sorted
import Luchta.Impl.Record
import Luchta.Impl.Types
import Mathlib.Data.Prod.Lex

/-!
# Cache hashes

The byte streams the cache hashes, and the hashes themselves over an arbitrary `blake3`. Feeding a
hasher piece by piece hashes the concatenation of the pieces.
-/

namespace Luchta.Impl

open Luchta.Framework

section Hashing

variable (blake3 : Bytes → Digest)

/-! ## Task specifications -/

/-- `TaskSpecHashInput`, as bincode writes its fields. -/
def taskSpecBytes (taskDef : TaskDefinition) (nonce : Option String) : Bytes :=
  encodeOption encodeStr taskDef.command ++
  (encodeOption encodeStr taskDef.worker ++
  (encodeU32 taskDef.weight ++
  (encodeSeq encodeStr (taskDef.dependsOn.map DependsOn.asConfigString) ++
  (encodeBool taskDef.cacheEnabled ++
  (encodeSeq encodeStr taskDef.inputs ++
  (encodeSeq encodeStr taskDef.outputs ++
  encodeOption encodeStr nonce))))))

def TASK_SPEC_CACHE_FILES_DOMAIN : Bytes := utf8 "luchta-cache:task-spec-cache-files:v1"

def TASK_SPEC_TOOL_VERSION_DOMAIN : Bytes := utf8 "luchta-cache:task-spec-tool-version:v1"

/-- The stream `task_spec_hash` hashes: the optional extensions stay outside the struct. -/
def taskSpecStream (taskDef : TaskDefinition) (nonce : Option String) : Bytes :=
  let bytes := taskSpecBytes taskDef nonce
  if taskDef.cacheFiles = [] ∧ taskDef.toolVersion = none then bytes
  else
    let base :=
      if taskDef.cacheFiles = [] then bytes
      else TASK_SPEC_CACHE_FILES_DOMAIN ++ encodeBytes bytes ++
        encodeBytes (encodeSeq encodeStr taskDef.cacheFiles)
    match taskDef.toolVersion with
    | none => base
    | some version => base ++ TASK_SPEC_TOOL_VERSION_DOMAIN ++ encodeBytes (utf8 version)

def taskSpecHash (taskDef : TaskDefinition) (nonce : Option String) : Digest :=
  blake3 (taskSpecStream taskDef nonce)

/-! ## Environment -/

/-- The tracked variables in order, each with its resolved value or with none. -/
def significantEnv (env : BTreeMap String EnvSpec) (resolver : String → Option String) :
    List (String × Option String) :=
  (env.entries.filter fun e => e.2.input).map fun e => (e.1, e.2.resolveEnvValue (resolver e.1))

/-- `ResolvedEnvValue`: variant 0 with the value, or variant 1. -/
def encodeResolvedEnvValue : Option String → Bytes
  | some value => encodeU32 0 ++ encodeStr value
  | none => encodeU32 1

def encodeEnvEntry (e : String × Option String) : Bytes :=
  encodeStr e.1 ++ encodeResolvedEnvValue e.2

def envHash (env : BTreeMap String EnvSpec) (resolver : String → Option String) : Digest :=
  blake3 (encodeSeq encodeEnvEntry (significantEnv env resolver))

/-! ## Package dependencies -/

/-- `sort_unstable` and `dedup`, on pairs compared lexicographically. -/
def canonicalPairs (pairs : List (String × String)) : List (String × String) :=
  dedup (sortBy toLex pairs)

def encodePair (p : String × String) : Bytes := encodeStr p.1 ++ encodeStr p.2

def pkgDepHash (pairs : List (String × String)) : Digest :=
  blake3 (encodeSeq encodePair (canonicalPairs pairs))

/-! ## File entries -/

def COMBINED_OUTPUTS_HASH_DOMAIN : Bytes := utf8 "luchta-cache:combined-outputs:v1"
def COMBINED_INPUTS_HASH_DOMAIN : Bytes := utf8 "luchta-cache:combined-inputs:v1"
def COMBINED_CACHE_FILES_HASH_DOMAIN : Bytes := utf8 "luchta-cache:combined-cache-files:v1"

/-- `sort_by` on the paths, which is stable. -/
def sortByPath (entries : List FileEntry) : List FileEntry := sortBy FileEntry.path entries

def encodeFileEntry (entry : FileEntry) : Bytes :=
  encodeStr entry.path ++ (encodeBool entry.absent ++ entry.hash.toList)

/-- Common framing of the combined hashes; only the domain differs between the callers. -/
def combinedEntriesStream (domain : Bytes) (entries : List FileEntry) : Bytes :=
  domain ++ encodeSeq encodeFileEntry (sortByPath entries)

def combinedEntriesHash (domain : Bytes) (entries : List FileEntry) : Digest :=
  blake3 (combinedEntriesStream domain entries)

def combinedOutputsHash (entries : List FileEntry) : Digest :=
  combinedEntriesHash blake3 COMBINED_OUTPUTS_HASH_DOMAIN entries

def combinedInputsHash (entries : List FileEntry) : Digest :=
  combinedEntriesHash blake3 COMBINED_INPUTS_HASH_DOMAIN entries

def combinedCacheFilesHash (entries : List FileEntry) : Digest :=
  combinedEntriesHash blake3 COMBINED_CACHE_FILES_HASH_DOMAIN entries

/-! ## Input keys -/

def DEP_OUTPUTS_HASH_DOMAIN : Bytes := utf8 "luchta:dep-outputs:v1"
def DEP_OUTPUTS_HASH_SEPARATOR : UInt8 := 0

def encodeDepOutput (e : String × Digest) : Bytes :=
  utf8 e.1 ++ DEP_OUTPUTS_HASH_SEPARATOR :: (e.2.toList ++ [DEP_OUTPUTS_HASH_SEPARATOR])

def depOutputsStream (depOutputs : BTreeMap String Digest) : Bytes :=
  DEP_OUTPUTS_HASH_DOMAIN ++ depOutputs.entries.flatMap encodeDepOutput

def combinedDepOutputsHash (depOutputs : BTreeMap String Digest) : Digest :=
  blake3 (depOutputsStream depOutputs)

def inputKeyStream (taskSpecHash envHash pkgDepHash depOutputsHash inputsHash : Digest) : Bytes :=
  taskSpecHash.toList ++ (envHash.toList ++ (pkgDepHash.toList ++
    (depOutputsHash.toList ++ inputsHash.toList)))

def deriveInputKey (taskSpecHash envHash pkgDepHash depOutputsHash inputsHash : Digest) : Digest :=
  blake3 (inputKeyStream taskSpecHash envHash pkgDepHash depOutputsHash inputsHash)

end Hashing

/-- The pinned bytes of a command, no worker, weight 3, two dependencies and a cache flag. -/
example : encodeOption encodeStr (some "build") ++ (encodeOption encodeStr none ++ (encodeU32 3 ++
      (encodeSeq encodeStr ["^build", "lint"] ++ encodeBool true))) =
    [0x01, 0x05, 0, 0, 0, 0, 0, 0, 0, 0x62, 0x75, 0x69, 0x6c, 0x64, 0x00, 0x03, 0, 0, 0,
      0x02, 0, 0, 0, 0, 0, 0, 0, 0x06, 0, 0, 0, 0, 0, 0, 0, 0x5e, 0x62, 0x75, 0x69, 0x6c, 0x64,
      0x04, 0, 0, 0, 0, 0, 0, 0, 0x6c, 0x69, 0x6e, 0x74, 0x01] := by
  decide

end Luchta.Impl
