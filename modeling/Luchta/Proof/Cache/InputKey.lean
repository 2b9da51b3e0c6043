import Luchta.Framework.Blake3
import Luchta.Proof.Cache.Streams

/-!
# Input keys

The shared cache looks a task up by one hash of hashes. Where `blake3` has no collision on the
streams of two states, equal keys mean that the cache may not tell the states apart
(`inputKey_determines`); and the key sees no order that the caller does not mean
(`inputKey_of_reordered`).
-/

namespace Luchta.Proof.Cache

open Luchta.Framework Luchta.Impl

/-- What a cacheable task is looked up by. The lengths fit their frames, as those of anything held
in memory do, and task ids contain no NUL. -/
structure TaskState where
  taskDef : TaskDefinition
  nonce : Option String
  env : BTreeMap String EnvSpec
  ambient : String → Option String
  pkgDepPairs : List (String × String)
  depOutputs : BTreeMap String Digest
  inputs : List FileEntry
  specFits : SpecFits taskDef nonce
  envFits : EnvFits (significantEnv env ambient)
  pairsFit : PairsFit (canonicalPairs pkgDepPairs)
  nulFree : ∀ id ∈ depOutputs.keys, NulFree id
  entriesFit : EntriesFit inputs

namespace TaskState

variable (blake3 : Bytes → Digest) (s : TaskState)

def inputKeyPreimage : Bytes :=
  inputKeyStream (taskSpecHash blake3 s.taskDef s.nonce) (envHash blake3 s.env s.ambient)
    (pkgDepHash blake3 s.pkgDepPairs) (combinedDepOutputsHash blake3 s.depOutputs)
    (combinedInputsHash blake3 s.inputs)

def inputKey : Digest :=
  deriveInputKey blake3 (taskSpecHash blake3 s.taskDef s.nonce) (envHash blake3 s.env s.ambient)
    (pkgDepHash blake3 s.pkgDepPairs) (combinedDepOutputsHash blake3 s.depOutputs)
    (combinedInputsHash blake3 s.inputs)

/-- Everything that is hashed on the way to the key. -/
def streams : List Bytes :=
  [taskSpecStream s.taskDef s.nonce, encodeSeq encodeEnvEntry (significantEnv s.env s.ambient),
    encodeSeq encodePair (canonicalPairs s.pkgDepPairs), depOutputsStream s.depOutputs,
    combinedEntriesStream COMBINED_INPUTS_HASH_DOMAIN s.inputs, s.inputKeyPreimage blake3]

end TaskState

/-- The two states agree on everything the cache tracks. -/
structure SameInputs (s s' : TaskState) : Prop where
  command : s.taskDef.command = s'.taskDef.command
  worker : s.taskDef.worker = s'.taskDef.worker
  weight : s.taskDef.weight = s'.taskDef.weight
  dependsOn : s.taskDef.dependsOn.map DependsOn.asConfigString =
    s'.taskDef.dependsOn.map DependsOn.asConfigString
  cacheEnabled : s.taskDef.cacheEnabled = s'.taskDef.cacheEnabled
  inputPatterns : s.taskDef.inputs = s'.taskDef.inputs
  outputPatterns : s.taskDef.outputs = s'.taskDef.outputs
  nonce : s.nonce = s'.nonce
  cacheFiles : s.taskDef.cacheFiles = s'.taskDef.cacheFiles
  toolVersion : s.taskDef.toolVersion = s'.taskDef.toolVersion
  /-- The same tracked variables, each with the same value or with none. -/
  env : significantEnv s.env s.ambient = significantEnv s'.env s'.ambient
  pkgDeps : ∀ p, p ∈ s.pkgDepPairs ↔ p ∈ s'.pkgDepPairs
  depOutputs : s.depOutputs = s'.depOutputs
  /-- The same paths, present or absent, with the same content hashes. -/
  entries : ∀ k, (∃ e ∈ s.inputs, entryKey e = k) ↔ ∃ e ∈ s'.inputs, entryKey e = k

variable {blake3 : Bytes → Digest} {s s' : TaskState}

/-- The hash has no collision among the streams of the two states. -/
def NoCollision (blake3 : Bytes → Digest) (s s' : TaskState) : Prop :=
  Set.InjOn blake3 {b | b ∈ s.streams blake3 ∨ b ∈ s'.streams blake3}

/-- The five hashes inside equal keys are equal, and so are the streams behind them. -/
theorem streams_eq_of_inputKey (hinj : NoCollision blake3 s s')
    (h : s.inputKey blake3 = s'.inputKey blake3) :
    taskSpecStream s.taskDef s.nonce = taskSpecStream s'.taskDef s'.nonce ∧
    encodeSeq encodeEnvEntry (significantEnv s.env s.ambient) =
      encodeSeq encodeEnvEntry (significantEnv s'.env s'.ambient) ∧
    encodeSeq encodePair (canonicalPairs s.pkgDepPairs) =
      encodeSeq encodePair (canonicalPairs s'.pkgDepPairs) ∧
    depOutputsStream s.depOutputs = depOutputsStream s'.depOutputs ∧
    combinedEntriesStream COMBINED_INPUTS_HASH_DOMAIN s.inputs =
      combinedEntriesStream COMBINED_INPUTS_HASH_DOMAIN s'.inputs := by
  have hin : ∀ {a b}, a ∈ s.streams blake3 → b ∈ s'.streams blake3 → blake3 a = blake3 b → a = b :=
    fun ha hb => hinj (.inl ha) (.inr hb)
  have hpre : s.inputKeyPreimage blake3 = s'.inputKeyPreimage blake3 :=
    hin (by simp [TaskState.streams]) (by simp [TaskState.streams]) h
  obtain ⟨h1, h2, h3, h4, h5⟩ := inputKeyStream_inj hpre
  exact ⟨hin (by simp [TaskState.streams]) (by simp [TaskState.streams]) h1,
    hin (by simp [TaskState.streams]) (by simp [TaskState.streams]) h2,
    hin (by simp [TaskState.streams]) (by simp [TaskState.streams]) h3,
    hin (by simp [TaskState.streams]) (by simp [TaskState.streams]) h4,
    hin (by simp [TaskState.streams]) (by simp [TaskState.streams]) h5⟩

theorem inputKey_determines (hinj : NoCollision blake3 s s')
    (h : s.inputKey blake3 = s'.inputKey blake3) : SameInputs s s' := by
  obtain ⟨hspec, henv, hpairs, hdeps, hentries⟩ := streams_eq_of_inputKey hinj h
  obtain ⟨hfields, hfiles, hversion⟩ := taskSpecStream_inj s.specFits s'.specFits hspec
  simp only [specFields, Prod.mk.injEq] at hfields
  obtain ⟨hcommand, hworker, hweight, hdependsOn, hcache, hinputs, houtputs, hnonce⟩ := hfields
  refine ⟨hcommand, hworker, hweight, hdependsOn, hcache, hinputs, houtputs, hnonce, hfiles,
    hversion, envStream_inj s.envFits s'.envFits henv, ?_,
    depOutputsStream_inj s.nulFree s'.nulFree hdeps, fun k => ?_⟩
  · exact canonicalPairs_eq_iff.1 (pkgDepStream_inj s.pairsFit s'.pairsFit hpairs)
  · rw [← mem_sortedKeys, (combinedEntriesStream_iff s.entriesFit s'.entriesFit).1 hentries,
      mem_sortedKeys]

/-- The key is a function of what the cache tracks. -/
theorem inputKey_congr (hs : PathsDistinct s.inputs) (hs' : PathsDistinct s'.inputs)
    (h : SameInputs s s') : s.inputKey blake3 = s'.inputKey blake3 := by
  have hspec : taskSpecStream s.taskDef s.nonce = taskSpecStream s'.taskDef s'.nonce := by
    simp only [taskSpecStream, taskSpecBytes, h.command, h.worker, h.weight, h.dependsOn,
      h.cacheEnabled, h.inputPatterns, h.outputPatterns, h.nonce, h.cacheFiles, h.toolVersion]
  have hentries : combinedEntriesStream COMBINED_INPUTS_HASH_DOMAIN s.inputs =
      combinedEntriesStream COMBINED_INPUTS_HASH_DOMAIN s'.inputs :=
    (combinedEntriesStream_iff s.entriesFit s'.entriesFit).2 ((sortedKeys_eq_iff hs hs').2 h.entries)
  simp only [TaskState.inputKey, taskSpecHash, envHash, pkgDepHash, combinedDepOutputsHash,
    combinedInputsHash, combinedEntriesHash, hspec, h.env, canonicalPairs_eq_iff.2 h.pkgDeps,
    h.depOutputs, hentries]

/-- The same state, supplied in another order: entries, pairs, and the bindings of both maps. -/
structure Reordered (s s' : TaskState) : Prop where
  taskDef : s.taskDef = s'.taskDef
  nonce : s.nonce = s'.nonce
  ambient : s.ambient = s'.ambient
  distinct : PathsDistinct s.inputs
  inputs : s.inputs.Perm s'.inputs
  pkgDepPairs : s.pkgDepPairs.Perm s'.pkgDepPairs
  env : ∃ l l', (l.map Prod.fst).Nodup ∧ l.Perm l' ∧ s.env = .ofList l ∧ s'.env = .ofList l'
  depOutputs : ∃ l l', (l.map Prod.fst).Nodup ∧ l.Perm l' ∧
    s.depOutputs = .ofList l ∧ s'.depOutputs = .ofList l'

theorem inputKey_of_reordered (h : Reordered s s') : s.inputKey blake3 = s'.inputKey blake3 := by
  obtain ⟨l, l', hl, hperm, henv, henv'⟩ := h.env
  obtain ⟨m, m', hm, hperm', hdeps, hdeps'⟩ := h.depOutputs
  have hsame : s.env = s'.env := by rw [henv, henv', BTreeMap.ofList_perm hl hperm]
  refine inputKey_congr h.distinct ((h.inputs.map _).nodup_iff.1 h.distinct) ?_
  refine ⟨?_, ?_, ?_, ?_, ?_, ?_, ?_, h.nonce, ?_, ?_, ?_, fun p => h.pkgDepPairs.mem_iff, ?_,
    fun k => ?_⟩
  iterate 9 rw [h.taskDef]
  · rw [hsame, h.ambient]
  · rw [hdeps, hdeps', BTreeMap.ofList_perm hm hperm']
  · simp only [h.inputs.mem_iff]

/-- Without a collision, equal keys identify the states; and no order of supply changes a key. -/
theorem inputKey_correct (hinj : NoCollision blake3 s s') :
    (s.inputKey blake3 = s'.inputKey blake3 → SameInputs s s') ∧
      (Reordered s s' → s.inputKey blake3 = s'.inputKey blake3) :=
  ⟨inputKey_determines hinj, inputKey_of_reordered⟩

/-- A compiler task with two source files, two package dependencies and one upstream task. -/
def compileState : TaskState where
  taskDef := { TaskDefinition.new [.DirectUpstream ⟨"build"⟩] 1 with
    worker := some "tsc", inputs := ["src/**"], toolVersion := some "5.4" }
  nonce := none
  env := .ofList [("NODE_ENV", ⟨none, some "production", true⟩)]
  ambient _ := none
  pkgDepPairs := [("react", "18.2.0"), ("lodash", "4.17.21")]
  depOutputs := .ofList [("lib#build", Digest.zero)]
  inputs := [⟨"src/b.ts", 3, 7, Digest.zero, false⟩, .absentEntry "src/a.ts"]
  specFits := by constructor <;> decide
  envFits := by decide
  pairsFit := by decide
  nulFree := by decide
  entriesFit := by decide

/-- The same state, with its files and pairs supplied the other way round. -/
def compileState' : TaskState :=
  { compileState with
    pkgDepPairs := [("lodash", "4.17.21"), ("react", "18.2.0")]
    inputs := [.absentEntry "src/a.ts", ⟨"src/b.ts", 3, 7, Digest.zero, false⟩]
    pairsFit := by decide
    entriesFit := by decide }

theorem inputKey_correct_compile : SameInputs compileState compileState' := by
  -- the first byte already tells the six digests apart
  have hfirst : (compileState.streams Blake3.hash).map (fun b => (Blake3.hash b)[0]) =
      [91, 224, 241, 178, 223, 55] := by decide +kernel
  have hpairs : canonicalPairs compileState'.pkgDepPairs =
      canonicalPairs compileState.pkgDepPairs := by decide
  have hfiles : sortByPath compileState'.inputs = sortByPath compileState.inputs := by decide
  have hsame : compileState'.streams Blake3.hash = compileState.streams Blake3.hash := by
    simp only [TaskState.streams, TaskState.inputKeyPreimage, pkgDepHash, combinedInputsHash,
      combinedEntriesHash, combinedEntriesStream, hpairs, hfiles]
    rfl
  have hinj : NoCollision Blake3.hash compileState compileState' := by
    intro a ha b hb hab
    simp only [Set.mem_ofPred_eq, hsame, or_self] at ha hb
    have hnd : ((compileState.streams Blake3.hash).map fun b => (Blake3.hash b)[0]).Nodup := by
      rw [hfirst]
      decide
    exact List.inj_on_of_nodup_map hnd ha hb (congrArg (fun d : Digest => d[0]) hab)
  obtain ⟨hkey, horder⟩ := inputKey_correct hinj
  refine hkey (horder ⟨rfl, rfl, rfl, by unfold PathsDistinct; decide, .swap _ _ _, .swap _ _ _,
    ⟨_, _, ?_, .refl _, rfl, rfl⟩, ⟨_, _, ?_, .refl _, rfl, rfl⟩⟩)
  · decide
  · decide

end Luchta.Proof.Cache
