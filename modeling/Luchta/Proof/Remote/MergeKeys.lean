import Luchta.Proof.Store.Idempotent
import Luchta.Proof.Store.Merge

/-!
# The keys of a consolidated shard

* `NamedFiles`, `Named`: shard files have the names of their content.
* `MergeKeys.step`: what a merge consolidates has the keys of every shard that it subsumes.
-/

namespace Luchta.Proof.Remote

open Luchta.Framework Luchta.Impl Luchta.Proof.Store

variable {codec : SnapshotCodec} {shardKey : String} {content : String → Option Snapshot}
  {written : Set Snapshot}

/-! ## Keys -/

/-- Every key of `r` is one of `c`. -/
def KeysLe (r c : Snapshot) : Prop :=
  ∀ key, (r.entries.get? key).isSome = true → (c.entries.get? key).isSome = true

theorem KeysLe.refl (r : Snapshot) : KeysLe r r := fun _ => id

theorem KeysLe.trans {r s t : Snapshot} (h : KeysLe r s) (h' : KeysLe s t) : KeysLe r t :=
  fun key hkey => h' key (h key hkey)

theorem keysLe_of_keeps {r c : Snapshot} (h : Keeps r c) : KeysLe r c := by
  intro key hkey
  obtain ⟨e, he⟩ := Option.isSome_iff_exists.1 hkey
  obtain ⟨f, hf, -⟩ := h key e he
  rw [hf]
  rfl

theorem keysLe_mergeShardEntries (s shard : Snapshot) :
    KeysLe s (mergeShardEntries s shard) ∧ KeysLe shard (mergeShardEntries s shard) := by
  obtain ⟨hkeeps, hsettled⟩ := mergeAll_spec s shard.entries.entries
    (shard.cacheFiles.entries.flatMap Prod.snd)
  refine ⟨keysLe_of_keeps hkeeps, fun key hkey => ?_⟩
  obtain ⟨e, he⟩ := Option.isSome_iff_exists.1 hkey
  obtain ⟨f, hf, -⟩ := hsettled (key, e) (BTreeMap.mem_entries_iff.2 he)
  rw [mergeShardEntries_eq, hf]
  rfl

theorem keysLe_mergeSnapshotUpdates (s : Snapshot) (es : List SnapshotEntry)
    (os : List CacheFileObservation) : KeysLe s (mergeSnapshotUpdates s es os).1 := by
  rw [mergeSnapshotUpdates_eq]
  exact keysLe_of_keeps (mergeAll_spec s (es.map keyed) os).1

/-! ## Names -/

/-- A shard file is named by a hash, and `content` says of what. -/
structure NamedFile (codec : SnapshotCodec) (content : String → Option Snapshot) (id : String)
    (bytes : Bytes) : Prop where
  hash : ∃ d, id = toHex d
  content : content id = codec.decodeSnapshot bytes

def NamedFiles (codec : SnapshotCodec) (content : String → Option Snapshot)
    (files : HashMap String Bytes) : Prop :=
  ∀ id bytes, files.lookup id = some bytes → NamedFile codec content id bytes

/-- What may be written has the name of its hash, no two of them the same, and can be read again. -/
structure Named (codec : SnapshotCodec) (content : String → Option Snapshot)
    (written : Set Snapshot) : Prop where
  content : ∀ c ∈ written, content (codec.shardId c) = some c
  stored : ∀ c ∈ written, ∀ bytes, codec.compress (codec.encode c) = some bytes →
    codec.decodeSnapshot bytes = some c

theorem NamedFiles.insert {files : HashMap String Bytes} {id : String} {bytes : Bytes}
    (h : NamedFiles codec content files) (hfile : NamedFile codec content id bytes) :
    NamedFiles codec content (files.insert id bytes) := by
  intro id' bytes' hlookup
  rw [HashMap.lookup_insert_if] at hlookup
  split at hlookup
  · rename_i heq
    rw [← Option.some.inj hlookup, heq]
    exact hfile
  · exact h id' bytes' hlookup

theorem NamedFiles.erase {files : HashMap String Bytes} (h : NamedFiles codec content files)
    (id : String) : NamedFiles codec content (files.erase id) := by
  intro id' bytes hlookup
  by_cases hid : id' = id
  · rw [hid, AList.lookup_erase] at hlookup
    contradiction
  · rw [AList.lookup_erase_ne hid] at hlookup
    exact h id' bytes hlookup

theorem Named.file (hnamed : Named codec content written) {c : Snapshot} (hc : c ∈ written)
    {bytes : Bytes} (hdecode : codec.decodeSnapshot bytes = some c) :
    NamedFile codec content (codec.shardId c) bytes :=
  ⟨⟨_, rfl⟩, (hnamed.content c hc).trans hdecode.symm⟩

/-! ## Merges -/

/-- Of these shards, all but the legacy file have their keys in `c`. -/
def Holds (shardKey : String) (content : String → Option Snapshot) (ids : List String)
    (c : Snapshot) : Prop :=
  ∀ id ∈ ids, id = legacyShardId shardKey ∨ ∃ r, content id = some r ∧ KeysLe r c

theorem Holds.mono {ids ids' : List String} {c c' : Snapshot} (h : Holds shardKey content ids c)
    (hids : ∀ id ∈ ids', id ∈ ids) (hc : KeysLe c c') : Holds shardKey content ids' c' :=
  fun id hid => (h id (hids id hid)).imp_right fun ⟨r, hr, hle⟩ => ⟨r, hr, hle.trans hc⟩

/-- What an outcome says: what to upload, and what has its keys there. -/
def OutcomeKeys (codec : SnapshotCodec) (shardKey : String) (content : String → Option Snapshot)
    (written : Set Snapshot) (upload : SnapshotUpload) (subsumed : List String) : Prop :=
  ∃ c ∈ written, upload.shardId = codec.shardId c ∧
    codec.decodeSnapshot upload.shardBytes = some c ∧ Holds shardKey content subsumed c

def MergeKeys (codec : SnapshotCodec) (shardKey : String) (content : String → Option Snapshot)
    (written : Set Snapshot) : MergePhase → Prop
  | .create | .list => True
  | .read _ todo loaded => (loaded.sawAny = false → loaded.merged = .new) ∧
    Holds shardKey content loaded.mergedShardIds loaded.merged ∧
    ∀ shard ∈ todo, shard.source = .LegacyFile → shard.shardId = legacyShardId shardKey
  | .check _ ids c | .write _ ids c => c ∈ written ∧ Holds shardKey content ids c
  | .delete upload subsumed _ => OutcomeKeys codec shardKey content written upload subsumed
  | .done outcome => ∀ upload, outcome.newSnapshotUpload = some upload →
    OutcomeKeys codec shardKey content written upload outcome.subsumedShardIds

theorem holds_load {b : Bucket} (hfiles : NamedFiles codec content b.files)
    {loaded : MergedShards} (h : Holds shardKey content loaded.mergedShardIds loaded.merged)
    {shard : SnapshotShard}
    (hshard : shard.source = .LegacyFile → shard.shardId = legacyShardId shardKey) (ok : Bool) :
    Holds shardKey content
      (loaded.load codec shard (if ok then b.readShard shard else none)).mergedShardIds
      (loaded.load codec shard (if ok then b.readShard shard else none)).merged := by
  unfold MergedShards.load
  split
  · exact h
  · rename_i s hs
    obtain ⟨bytes, hbytes, hdecode⟩ := Option.bind_eq_some_iff.1 hs
    have hread : b.readShard shard = some bytes := by
      cases ok with
      | true => exact hbytes
      | false => contradiction
    obtain ⟨hle, hles⟩ := keysLe_mergeShardEntries loaded.merged s
    intro id hid
    rcases List.mem_cons.1 hid with rfl | hid
    · unfold Bucket.readShard at hread
      cases hsource : shard.source with
      | LegacyFile => exact .inl (hshard hsource)
      | ShardFile =>
        rw [hsource] at hread
        exact .inr ⟨s, (hfiles _ _ hread).content.trans hdecode, hles⟩
    · exact (h id hid).imp_right fun ⟨r, hr, hrle⟩ => ⟨r, hr, hrle.trans hle⟩

theorem MergeKeys.step (hnamed : Named codec content written) {store : StoreState}
    (hfiles : NamedFiles codec content store.bucket.files) {l : Nat × MergeLabel} {m : Merge}
    (hm : store.merges[l.1]? = some m)
    (h : MergeKeys codec shardKey content written m.phase)
    (hwritten : ∀ r ∈ merging store l,
      (mergeSnapshotUpdates r.2 r.1.entries r.1.cacheFileObservations).1 ∈ written)
    {b' : Bucket} {p : MergePhase}
    (hs : m.step codec shardKey store.bucket l.2 = some (b', p)) :
    MergeKeys codec shardKey content written p ∧ NamedFiles codec content b'.files := by
  unfold Merge.step at hs
  split at hs
  · split at hs
    · cases hs
      exact ⟨nofun, hfiles⟩
    · split at hs
      · cases hs
        exact ⟨trivial, hfiles⟩
      · cases hs
        exact ⟨nofun, hfiles⟩
  · cases hs
    exact ⟨⟨fun _ => rfl, nofun, fun shard => source_listSnapshotShards⟩, hfiles⟩
  · rename_i visible shard todo loaded ok hp hl
    cases hs
    rw [hp] at h
    obtain ⟨hfresh, hholds, hsource⟩ := h
    refine ⟨⟨?_, holds_load hfiles hholds (hsource shard (.head _)) ok, ?_⟩, hfiles⟩
    · unfold MergedShards.load
      split
      · exact hfresh
      · exact nofun
    · exact fun shard hshard => hsource shard (.tail _ hshard)
  · rename_i visible loaded hp hl
    rw [hp] at h
    obtain ⟨hfresh, hholds, -⟩ := h
    have hsnapshot : loaded.snapshot.getD .new = loaded.merged := by
      unfold MergedShards.snapshot
      split
      · rfl
      · rename_i hsaw
        exact (hfresh (Bool.not_eq_true _ ▸ hsaw)).symm
    have hmerging : merging store l = some (m, loaded.merged) := by
      unfold merging
      rw [hm]
      dsimp only
      rw [hp, hl]
      show some (m, loaded.snapshot.getD .new) = _
      rw [hsnapshot]
    have hwritten := hwritten _ hmerging
    dsimp only at hs
    rw [hsnapshot] at hs
    split at hs
    · cases hs
      exact ⟨⟨hwritten, hholds.mono (fun _ => id) (keysLe_mergeSnapshotUpdates _ _ _)⟩, hfiles⟩
    · cases hs
      exact ⟨nofun, hfiles⟩
  · rename_i hp hl
    rw [hp] at h
    split at hs
    · cases hs
      exact ⟨nofun, hfiles⟩
    · cases hs
      exact ⟨h, hfiles⟩
  · rename_i visible ids consolidated ok hp hl
    rw [hp] at h
    obtain ⟨hc, hholds⟩ := h
    split at hs
    · cases hs
      exact ⟨nofun, hfiles⟩
    · rename_i bytes hbytes
      split at hs
      · cases hs
        have hdecode := hnamed.stored consolidated hc bytes hbytes
        exact ⟨⟨consolidated, hc, rfl, hdecode,
          hholds.mono (fun _ => mem_of_mem_subsumed) (.refl _)⟩,
          hfiles.insert (hnamed.file hc hdecode)⟩
      · cases hs
        exact ⟨nofun, hfiles⟩
  · rename_i upload subsumed id todo ok hp hl
    cases hs
    rw [hp] at h
    refine ⟨h, ?_⟩
    cases ok with
    | true => exact hfiles.erase id
    | false => exact hfiles
  · rename_i upload subsumed hp hl
    cases hs
    rw [hp] at h
    refine ⟨fun u hu => ?_, hfiles⟩
    rw [← Option.some.inj hu]
    exact h
  · contradiction

end Luchta.Proof.Remote
