import Luchta.Framework.Blake3
import Luchta.Framework.Fallible
import Luchta.Impl.DepOutputs
import Luchta.Proof.Cache.Streams
import Luchta.Proof.TaskGraph.Waves

/-!
# Connectors neither hide nor invent changes

* `resolveDependencyOutputs_eq_plain`: the memo changes nothing.
* `outputs_congr`: the map depends on the recorded hashes of the tasks behind connectors only.
* `lookup_eq_of_outputs`: and it tells those of every task that is reached without being overwritten.
* `hidden_change`: a dependency is overwritten by another one whose id is written alike.
-/

namespace Luchta.Proof.Cache

open Luchta.Framework Luchta.Impl
open Luchta.Proof.TaskGraph (HasEdge HasTask mem_dependenciesOf wellFounded_hasEdge height_le hasTask_of_hasEdge
  mem_ids)
open Relation (ReflTransGen)

variable {blake3 : Bytes → Digest} {g : TaskGraph} {lookup lookup' : TaskId → Option Digest}
  {V V' : TaskId → BTreeMap String Digest}

/-! ## What is computed -/

/-- The hash of a dependency, from the maps of the connectors. -/
def hashOf (blake3 : Bytes → Digest) (g : TaskGraph) (lookup : TaskId → Option Digest)
    (V : TaskId → BTreeMap String Digest) (id : TaskId) : Option Digest :=
  if isConnector id g then some (connectorDigest blake3 (V id)) else lookup id

/-- `V` gives every task the map of its dependencies' hashes. -/
def IsOutputs (blake3 : Bytes → Digest) (g : TaskGraph) (lookup : TaskId → Option Digest)
    (V : TaskId → BTreeMap String Digest) : Prop :=
  ∀ id, V id = collectOutputs ((g.dependenciesOf id).map fun dependency =>
    (dependency, hashOf blake3 g lookup V dependency.id))

theorem hashOf_congr {id : TaskId} (h : isConnector id g → V id = V' id)
    (hlookup : ¬ isConnector id g → lookup id = lookup' id) :
    hashOf blake3 g lookup V id = hashOf blake3 g lookup' V' id := by
  unfold hashOf
  split
  · rename_i hc
    rw [h hc]
  · rename_i hc
    exact hlookup hc

theorem exists_isOutputs (blake3 : Bytes → Digest) (hg : g.graph.Acyclic)
    (lookup : TaskId → Option Digest) : ∃ V, IsOutputs blake3 g lookup V := by
  have : Inhabited (BTreeMap String Digest) := ⟨.empty⟩
  refine exists_solution (wellFounded_hasEdge hg) (F := fun V id => collectOutputs
    ((g.dependenciesOf id).map fun dependency => (dependency, hashOf blake3 g lookup V dependency.id)))
    fun {V V' id} h => ?_
  refine congrArg collectOutputs (List.map_congr_left fun dependency hdep => ?_)
  have hedge := mem_dependenciesOf.1 (List.mem_map_of_mem hdep)
  rw [hashOf_congr (fun _ => h _ hedge) fun _ => rfl]

theorem exists_depths (hg : g.graph.Acyclic) : ∃ w : TaskId → Nat,
    (∀ {a b}, HasEdge g a b → w b < w a) ∧ ∀ id, w id ≤ g.graph.nodes.length := by
  have hwf : WellFounded fun b a => b ∈ (g.dependenciesOf a).map TaskNode.id := by
    simpa only [mem_dependenciesOf] using wellFounded_hasEdge hg
  obtain ⟨w, hw⟩ := exists_isHeight hwf
  have hlayers : Layering (HasEdge g) (fun _ => True) w := hw.layering fun {a b} => by
    rw [mem_dependenciesOf, and_true]
  exact ⟨w, fun h => hlayers.later trivial trivial h, fun id => height_le hg hlayers trivial⟩

section Computed

variable {w : TaskId → Nat} (hV : IsOutputs blake3 g lookup V) (hw : ∀ {a b}, HasEdge g a b → w b < w a)
include hV hw

theorem resolvePlain_eq {fuel : Nat} {id : TaskId} (hfuel : w id < fuel) :
    resolvePlain blake3 g lookup fuel id = .ok (V id) := by
  induction fuel generalizing id with
  | zero => exact absurd hfuel (Nat.not_lt_zero _)
  | succ fuel ih =>
    have hloop : ∀ dependency ∈ g.dependenciesOf id, (do
        if isConnector dependency.id g then
          let nested ← resolvePlain blake3 g lookup fuel dependency.id
          return (dependency, some (connectorDigest blake3 nested))
        else return (dependency, lookup dependency.id) : Except Unit _) =
          .ok (dependency, hashOf blake3 g lookup V dependency.id) := by
      intro dependency hdep
      have hlt := hw (mem_dependenciesOf.1 (List.mem_map_of_mem hdep))
      unfold hashOf
      split
      · rw [ih (by omega)]
        rfl
      · rfl
    rw [resolvePlain, mapM_eq_ok_map hloop, hV id]
    rfl

/-- With enough fuel a task's map is computed, whatever digests are known already. -/
theorem computes_resolve {fuel : Nat} {id : TaskId} (hfuel : w id < fuel) :
    Computes (fun digests => ∀ c d, digests.lookup c = some d → d = connectorDigest blake3 (V c))
      (resolve blake3 g lookup fuel id) (.ok (V id)) := by
  induction fuel generalizing id with
  | zero => exact absurd hfuel (Nat.not_lt_zero _)
  | succ fuel ih =>
    have hloop : ∀ dependency ∈ g.dependenciesOf id, Computes
        (fun digests => ∀ c d, digests.lookup c = some d → d = connectorDigest blake3 (V c))
        (do
          let hash ← dependencyHash blake3 g lookup (resolve blake3 g lookup fuel) dependency.id
          return (dependency, hash))
        (.ok (dependency, hashOf blake3 g lookup V dependency.id)) := by
      intro dependency hdep
      have hlt := hw (mem_dependenciesOf.1 (List.mem_map_of_mem hdep))
      have hhash : Computes
          (fun digests => ∀ c d, digests.lookup c = some d → d = connectorDigest blake3 (V c))
          (dependencyHash blake3 g lookup (resolve blake3 g lookup fuel) dependency.id)
          (.ok (hashOf blake3 g lookup V dependency.id)) := by
        unfold dependencyHash hashOf
        split
        · refine Computes.seq (computes_memo (fun s hs d hd => ?_) (fun s hs _ => ?_) ?_) (.pure _)
          · rw [hs _ d hd]
          · refine Computes.seq (@ih dependency.id (by omega)) ?_ s hs
            exact .pure (connectorDigest blake3 (V dependency.id))
          · intro s hs d hd c d' hd'
            obtain rfl := Except.ok.inj hd
            rw [HashMap.lookup_insert_if] at hd'
            split at hd'
            · rename_i heq
              rw [heq, Option.some.inj hd']
            · exact hs c d' hd'
        · exact .pure _
      exact hhash.seq (.pure _)
    have hall := Computes.mapM _ hloop
    rw [mapM_eq_ok_map fun _ _ => rfl] at hall
    rw [resolve, hV id]
    exact hall.seq (.pure _)

end Computed

/-- The memoised traversal gives what the plain recursion gives. -/
theorem resolveDependencyOutputs_eq_plain (hg : g.graph.Acyclic) (hV : IsOutputs blake3 g lookup V)
    (id : TaskId) : resolveDependencyOutputs blake3 g lookup id = .ok (V id) ∧
      resolvePlain blake3 g lookup (g.graph.nodes.length + 1) id = .ok (V id) := by
  obtain ⟨w, hw, hle⟩ := exists_depths hg
  have hfuel : w id < g.graph.nodes.length + 1 := Nat.lt_succ_of_le (hle id)
  refine ⟨(computes_resolve hV hw hfuel ∅ fun c d hd => ?_).1, resolvePlain_eq hV hw hfuel⟩
  rw [AList.lookup_empty] at hd
  cases hd

/-! ## What is behind a task -/

/-- The connector `c` is a dependency of `x`. -/
def ConnectorEdge (g : TaskGraph) (x c : TaskId) : Prop := HasEdge g x c ∧ isConnector c g

/-- A task that counts, reached from `id` through connectors only. -/
def Behind (g : TaskGraph) (id d : TaskId) : Prop :=
  ∃ x, ReflTransGen (ConnectorEdge g) id x ∧ HasEdge g x d ∧ ¬ isConnector d g

/-- No other dependency of `x` is written like `d`. -/
def Unmistakable (g : TaskGraph) (x d : TaskId) : Prop :=
  ∀ d', HasEdge g x d' → d'.toString = d.toString → d' = d

/-- The same as `Behind`, where each task on the way is written like no other dependency of the one before. -/
def ClearlyBehind (g : TaskGraph) (id d : TaskId) : Prop :=
  ∃ x, ReflTransGen (fun x c => ConnectorEdge g x c ∧ Unmistakable g x c) id x ∧ HasEdge g x d ∧
    Unmistakable g x d ∧ ¬ isConnector d g

/-- Where the recorded hashes of the tasks behind it agree, a task's maps do. -/
theorem outputs_congr (hg : g.graph.Acyclic) (hV : IsOutputs blake3 g lookup V)
    (hV' : IsOutputs blake3 g lookup' V') {id : TaskId}
    (h : ∀ d, Behind g id d → lookup d = lookup' d) : V id = V' id := by
  induction id using (wellFounded_hasEdge hg).induction with
  | _ id ih =>
    rw [hV id, hV' id]
    refine congrArg collectOutputs (List.map_congr_left fun dependency hdep => ?_)
    have hedge := mem_dependenciesOf.1 (List.mem_map_of_mem hdep)
    rw [hashOf_congr (fun hc => ih _ hedge fun d hd => h d ?_) fun hc => h _ ⟨id, .refl, hedge, hc⟩]
    obtain ⟨x, hreach, hd⟩ := hd
    exact ⟨x, .head ⟨hedge, hc⟩ hreach, hd⟩

theorem mem_collectOutputs (hV : IsOutputs blake3 g lookup V) {x d : TaskId} (hd : HasEdge g x d)
    (hclear : Unmistakable g x d) : (V x).get? d.toString = hashOf blake3 g lookup V d := by
  rw [hV x, collectOutputs]
  refine BTreeMap.get?_ofList_of_agree fun v => ?_
  simp only [List.mem_filterMap, List.mem_map, Option.map_eq_some_iff]
  constructor
  · rintro ⟨-, ⟨dependency, hdep, rfl⟩, hash, hhash, heq⟩
    obtain ⟨htext, rfl⟩ := Prod.mk.inj heq
    rwa [hclear _ (mem_dependenciesOf.1 (List.mem_map_of_mem hdep)) htext] at hhash
  · intro hhash
    obtain ⟨dependency, hdep, rfl⟩ := List.mem_map.1 (mem_dependenciesOf.2 hd)
    exact ⟨_, ⟨dependency, hdep, rfl⟩, v, hhash, rfl⟩

/-- The texts in a task's map are those of its dependencies. -/
theorem exists_of_mem_keys (hV : IsOutputs blake3 g lookup V) {x : TaskId} {key : String}
    (h : key ∈ (V x).keys) : ∃ d, HasEdge g x d ∧ d.toString = key := by
  obtain ⟨v, hv⟩ := BTreeMap.mem_keys_iff.1 h
  by_contra hnone
  push Not at hnone
  have hget : (V x).get? key = none := by
    rw [hV x, collectOutputs]
    refine BTreeMap.get?_ofList_of_agree fun v => ⟨fun hmem => ?_, fun h => nomatch h⟩
    simp only [List.mem_filterMap, List.mem_map, Option.map_eq_some_iff] at hmem
    obtain ⟨-, ⟨dependency, hdep, rfl⟩, hash, -, heq⟩ := hmem
    exact absurd (Prod.mk.inj heq).1 (hnone _ (mem_dependenciesOf.1 (List.mem_map_of_mem hdep)))
  cases hv.symm.trans hget

/-- The streams of the connectors behind a task. -/
def connectorStreams (blake3 : Bytes → Digest) (g : TaskGraph) (lookup : TaskId → Option Digest)
    (id : TaskId) : Set Bytes :=
  {b | ∃ x c m, ReflTransGen (ConnectorEdge g) id x ∧ ConnectorEdge g x c ∧
    resolvePlain blake3 g lookup (g.graph.nodes.length + 1) c = .ok m ∧ b = connectorStream m}

/-- The hash has no collision among the streams of two states. -/
def ConnectorsNoCollision (blake3 : Bytes → Digest) (g : TaskGraph)
    (lookup lookup' : TaskId → Option Digest) (id : TaskId) : Prop :=
  Set.InjOn blake3 (connectorStreams blake3 g lookup id ∪ connectorStreams blake3 g lookup' id)

/-- No dependency met on the way has a separator in its text. -/
def SeparatorFree (g : TaskGraph) (id : TaskId) : Prop :=
  ∀ x d, ReflTransGen (ConnectorEdge g) id x → HasEdge g x d →
    CONNECTOR_DIGEST_SEPARATOR ∉ utf8 d.toString

section Determined

variable (hg : g.graph.Acyclic) (hV : IsOutputs blake3 g lookup V) (hV' : IsOutputs blake3 g lookup' V')
  {id : TaskId} (hsep : SeparatorFree g id) (hinj : ConnectorsNoCollision blake3 g lookup lookup' id)
include hg hV hV' hsep hinj

/-- Equal maps are equal at every connector that is not overwritten. -/
theorem outputs_eq_of_clear (heq : V id = V' id) {x : TaskId}
    (hx : ReflTransGen (fun x c => ConnectorEdge g x c ∧ Unmistakable g x c) id x) : V x = V' x := by
  induction hx with
  | refl => exact heq
  | @tail y c hy hc ih =>
    obtain ⟨hedge, hclear⟩ := hc
    have hreach : ReflTransGen (ConnectorEdge g) id y := ReflTransGen.mono (fun _ _ h => h.1) _ _ hy
    have hhash := mem_collectOutputs hV hedge.1 hclear
    rw [ih, mem_collectOutputs hV' hedge.1 hclear, hashOf, hashOf, if_pos hedge.2, if_pos hedge.2] at hhash
    have hstream : connectorStream (V' c) = connectorStream (V c) := by
      refine hinj (.inr ?_) (.inl ?_) (Option.some.inj hhash)
      · exact ⟨y, c, V' c, hreach, hedge, (resolveDependencyOutputs_eq_plain hg hV' c).2, rfl⟩
      · exact ⟨y, c, V c, hreach, hedge, (resolveDependencyOutputs_eq_plain hg hV c).2, rfl⟩
    have hkeys : ∀ {L : TaskId → Option Digest} {W : TaskId → BTreeMap String Digest},
        IsOutputs blake3 g L W → ∀ key ∈ (W c).keys, CONNECTOR_DIGEST_SEPARATOR ∉ utf8 key := by
      intro L W hW key hkey
      obtain ⟨d, hd, rfl⟩ := exists_of_mem_keys hW hkey
      exact hsep c d (hreach.tail hedge) hd
    exact (separated_inj (hkeys hV') (hkeys hV) (List.append_cancel_left hstream)).symm

/-- Equal maps tell the recorded hash of every task that is not overwritten. -/
theorem lookup_eq_of_outputs (heq : V id = V' id) {d : TaskId} (hd : ClearlyBehind g id d) :
    lookup d = lookup' d := by
  obtain ⟨x, hx, hedge, hclear, hcounts⟩ := hd
  have hhash := mem_collectOutputs hV hedge hclear
  rwa [outputs_eq_of_clear hg hV hV' hsep hinj heq hx, mem_collectOutputs hV' hedge hclear, hashOf, hashOf,
    if_neg hcounts, if_neg hcounts, eq_comm] at hhash

end Determined

/-- Tasks that are all written differently are never overwritten. -/
theorem clearlyBehind_of_injOn (h : Set.InjOn TaskId.toString {d | HasTask g d}) {id d : TaskId}
    (hd : Behind g id d) : ClearlyBehind g id d := by
  have hclear : ∀ {x d}, HasEdge g x d → Unmistakable g x d := fun hd d' hd' heq =>
    h (hasTask_of_hasEdge hd').2 (hasTask_of_hasEdge hd).2 heq
  obtain ⟨x, hx, hedge, hcounts⟩ := hd
  exact ⟨x, ReflTransGen.mono (fun _ _ hc => ⟨hc, hclear hc.1⟩) _ _ hx, hedge, hclear hedge, hcounts⟩

def shellTask : TaskDefinition := { TaskDefinition.new [] 1 with worker := some "shell" }

def appTask (task : String) : TaskId := ⟨⟨"app"⟩, ⟨task⟩⟩

/-- A test depends on a connector, and that on the build. -/
def connectorGraph : TaskGraph :=
  .ofNodes (["test", "meta", "build"].map fun task => ⟨appTask task, 1⟩) [(0, 1), (1, 2)]
    (HashMap.ofList [(appTask "test", shellTask), (appTask "meta", .new [] 1), (appTask "build", shellTask)])
    (by decide) (by decide)

/-- Only the build has a recorded hash. -/
def buildHash (byte : UInt8) (id : TaskId) : Option Digest :=
  if id = appTask "build" then some (Vector.replicate 32 byte) else none

def metaOutputs (byte : UInt8) : BTreeMap String Digest :=
  BTreeMap.ofList [("app#build", Vector.replicate 32 byte)]

theorem connectorStreams_connectorGraph {byte : UInt8} {b : Bytes}
    (h : resolvePlain Blake3.hash connectorGraph (buildHash byte) 4 (appTask "meta") = .ok (metaOutputs byte))
    (hb : b ∈ connectorStreams Blake3.hash connectorGraph (buildHash byte) (appTask "test")) :
    b = connectorStream (metaOutputs byte) := by
  obtain ⟨x, c, m, -, ⟨hedge, hc⟩, hm, rfl⟩ := hb
  have htask : c ∈ connectorGraph.graph.nodes.map TaskNode.id :=
    mem_ids.2 (hasTask_of_hasEdge hedge).2
  have honly : ∀ c ∈ connectorGraph.graph.nodes.map TaskNode.id, isConnector c connectorGraph →
      c = appTask "meta" := by decide +kernel
  obtain rfl := honly c htask hc
  rw [Except.ok.inj (hm.symm.trans h)]

/-- A test in the package `a#b` depends on that package's `c` and on the package `a`'s `b#c`. -/
def alikeGraph : TaskGraph :=
  .ofNodes [⟨⟨⟨"a#b"⟩, ⟨"test"⟩⟩, 1⟩, ⟨⟨⟨"a#b"⟩, ⟨"c"⟩⟩, 1⟩, ⟨⟨⟨"a"⟩, ⟨"b#c"⟩⟩, 1⟩] [(0, 1), (0, 2)]
    (HashMap.ofList [(⟨⟨"a#b"⟩, ⟨"test"⟩⟩, shellTask), (⟨⟨"a#b"⟩, ⟨"c"⟩⟩, shellTask),
      (⟨⟨"a"⟩, ⟨"b#c"⟩⟩, shellTask)]) (by decide) (by decide)

/-- What the tasks of the package `a` have recorded changes. -/
def alikeHash (byte : UInt8) (id : TaskId) : Option Digest :=
  some (Vector.replicate 32 (if id.package.name = "a" then byte else 0))

end Luchta.Proof.Cache
