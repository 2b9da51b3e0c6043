import Luchta.Framework.Memo
import Luchta.Impl.Hashing
import Luchta.Impl.TaskGraph

/-!
# Dependency outputs across connectors

The output hashes that a task's cache key is made of: a dependency that runs contributes its recorded
hash, a connector a digest over its own dependencies. `resolvePlain` is the recursion without the memo.
-/

namespace Luchta.Impl

open Luchta.Framework

def CONNECTOR_DIGEST_DOMAIN : Bytes := utf8 "luchta.connector.dep-outputs.v1"

def CONNECTOR_DIGEST_SEPARATOR : UInt8 := 0x1f

def encodeConnectorOutput (e : String × Digest) : Bytes :=
  utf8 e.1 ++ CONNECTOR_DIGEST_SEPARATOR :: (e.2.toList ++ [CONNECTOR_DIGEST_SEPARATOR])

def connectorStream (depOutputs : BTreeMap String Digest) : Bytes :=
  CONNECTOR_DIGEST_DOMAIN ++ depOutputs.entries.flatMap encodeConnectorOutput

def isConnector (id : TaskId) (g : TaskGraph) : Bool :=
  (g.taskDefinition id).any fun definition => !definition.countsInProgress

section Resolve

variable (blake3 : Bytes → Digest) (g : TaskGraph) (lookup : TaskId → Option Digest)

def connectorDigest (depOutputs : BTreeMap String Digest) : Digest := blake3 (connectorStream depOutputs)

/-- The hash of one dependency; connectors are never looked up. -/
def dependencyHash (resolve : TaskId → Memoised (HashMap TaskId Digest) Unit (BTreeMap String Digest))
    (id : TaskId) : Memoised (HashMap TaskId Digest) Unit (Option Digest) :=
  if isConnector id g then do
    let digest ← memo (fun digests => digests.lookup id) (fun digest digests => digests.insert id digest) do
      let nested ← resolve id
      return connectorDigest blake3 nested
    return some digest
  else return lookup id

/-- The dependencies of a task that have a hash; a later one replaces an earlier one of the same key. -/
def collectOutputs (hashes : List (TaskNode × Option Digest)) : BTreeMap String Digest :=
  BTreeMap.ofList (hashes.filterMap fun e => e.2.map fun hash => (e.1.id.toString, hash))

def resolve : Nat → TaskId → Memoised (HashMap TaskId Digest) Unit (BTreeMap String Digest)
  | 0, _ => throw ()
  | fuel + 1, id => do
    let hashes ← (g.dependenciesOf id).mapM fun dependency => do
      let hash ← dependencyHash blake3 g lookup (resolve fuel) dependency.id
      return (dependency, hash)
    return collectOutputs hashes

def resolveDependencyOutputs (id : TaskId) : Except Unit (BTreeMap String Digest) :=
  (resolve blake3 g lookup (g.graph.nodes.length + 1) id ∅).1

/-- The recursion that computes every digest where it is needed. -/
def resolvePlain : Nat → TaskId → Except Unit (BTreeMap String Digest)
  | 0, _ => throw ()
  | fuel + 1, id => do
    let hashes ← (g.dependenciesOf id).mapM fun dependency => do
      if isConnector dependency.id g then
        let nested ← resolvePlain fuel dependency.id
        return (dependency, some (connectorDigest blake3 nested))
      else return (dependency, lookup dependency.id)
    return collectOutputs hashes

end Resolve

end Luchta.Impl
