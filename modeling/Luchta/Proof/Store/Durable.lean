import Luchta.Proof.Store.Idempotent
import Luchta.Proof.Store.Keys

/-!
# Merges are durable

* `merge_alone`: with the bucket to itself, a merge does what `mergeUpdatesWithOutcome` says.
* `outputs_lookup`: what a lookup finds is what the first shard has that can be decoded.
* `merge_durable`: what a merge was given is found by a later load, unless a file that cannot be
  decoded has the name of the shard that it would write; `merge_not_durable` is such a bucket.
-/

namespace Luchta.Proof.Store

open Luchta.Framework Luchta.Impl

variable {codec : SnapshotCodec} {shardKey : String}

/-! ## A merge with the bucket to itself -/

section Alone

variable {b : Bucket} {m : Merge}

/-- The merge is at the phase, in the bucket. -/
abbrev At (codec : SnapshotCodec) (shardKey : String) (b : Bucket) (m : Merge) (b' : Bucket)
    (phase : MergePhase) : Prop :=
  Reach ((storeSystem codec shardKey b).resume ⟨b, [m]⟩) (fun _ _ => True)
    ⟨b', [{ m with phase := phase }]⟩

theorem At.step {b' b'' : Bucket} {phase phase' : MergePhase} (h : At codec shardKey b m b' phase)
    (l : MergeLabel)
    (hstep : Merge.step codec shardKey b' { m with phase := phase } l = some (b'', phase')) :
    At codec shardKey b m b'' phase' := by
  refine Reach.step (l := (0, l)) h trivial ?_
  show StoreState.step codec shardKey _ _ = _
  unfold StoreState.step
  simp [hstep]

theorem At.read {visible todo : List SnapshotShard} {loaded : MergedShards}
    (h : At codec shardKey b m b (.read visible todo loaded)) :
    At codec shardKey b m b (.read visible []
      (todo.foldl (fun m shard => m.load codec shard (b.readShard shard)) loaded)) := by
  induction todo generalizing loaded with
  | nil => exact h
  | cons shard todo ih => exact ih (h.step (.read true) rfl)

theorem At.delete {upload : SnapshotUpload} {subsumed todo : List String} {b' : Bucket}
    (h : At codec shardKey b m b' (.delete upload subsumed todo)) :
    At codec shardKey b m (b'.deleteShards todo) (.delete upload subsumed []) := by
  induction todo generalizing b' with
  | nil => exact h
  | cons id todo ih => exact ih (h.step (.delete true) rfl)

/-- With the bucket to itself, a merge does what the function says. -/
theorem merge_alone (ops : FileOps) (b : Bucket) (entries : List SnapshotEntry)
    (os : List CacheFileObservation) :
    At codec shardKey b ⟨entries, os, .create⟩
      (b.mergeUpdatesWithOutcome codec shardKey ops entries os).1
      (.done (b.mergeUpdatesWithOutcome codec shardKey ops entries os).2) := by
  have hstart : At codec shardKey b ⟨entries, os, .create⟩ b .create := .init rfl
  unfold Bucket.mergeUpdatesWithOutcome
  by_cases hempty : entries = [] ∧ os = []
  · rw [if_pos hempty]
    exact hstart.step (.create true) (by simp [Merge.step, hempty])
  · rw [if_neg hempty]
    cases hcreate : ops.create with
    | false => exact hstart.step (.create false) (by simp [Merge.step, hempty])
    | true =>
      have hlist : At codec shardKey b ⟨entries, os, .create⟩ b .list :=
        hstart.step (.create true) (by simp [Merge.step, hempty])
      have hread := (hlist.step (.list b.files.keys) rfl).read
      generalize hloaded : (b.visibleShards shardKey).foldl
        (fun m shard => MergedShards.load codec m shard (b.readShard shard)) ⟨.new, false, []⟩ = loaded
      have hloaded' : b.loadMergedSnapshot codec shardKey = loaded := hloaded
      rw [show b.listSnapshotShards shardKey b.files.keys = b.visibleShards shardKey from rfl,
        hloaded] at hread
      simp only [hloaded', Bool.not_true, Bool.false_eq_true, if_false]
      generalize hmerge : mergeSnapshotUpdates (loaded.snapshot.getD .new) entries os = r at *
      obtain ⟨consolidated, changes⟩ := r
      dsimp only
      split
      · rename_i hchanged
        have hcheck : At codec shardKey b ⟨entries, os, .create⟩ b (.check (b.visibleShards shardKey)
            loaded.mergedShardIds consolidated) :=
          hread.step .merge (by simp [Merge.step, hmerge, hchanged])
        unfold Bucket.writeConsolidatedShard
        dsimp only
        split
        · rename_i hexists
          exact hcheck.step .check (by simp [Merge.step, hexists])
        · rename_i hfree
          have hwrite : At codec shardKey b ⟨entries, os, .create⟩ b (.write
              (b.visibleShards shardKey) loaded.mergedShardIds consolidated) :=
            hcheck.step .check (by simp [Merge.step, hfree])
          split
          · rename_i hcompress
            exact hwrite.step (.write true) (by simp [Merge.step, hcompress])
          · rename_i onDisk hcompress
            split
            · rename_i hok
              have hdelete := (hwrite.step (.write true) (by
                simp only [Merge.step, hcompress]
                rfl)).delete
              exact hdelete.step .merge rfl
            · exact hwrite.step (.write false) (by simp [Merge.step, hcompress])
      · rename_i hchanged
        exact hread.step .merge (by simp [Merge.step, hmerge, hchanged])

end Alone

/-! ## Outputs -/

def outputs (s : Snapshot) (key : String) : Option Digest :=
  (s.entries.get? key).map fun e => e.outputsHash

/-- The outputs of a key are those of the first entry that had it. -/
theorem outputs_foldl (es : List (String × SnapshotEntry)) (s : Snapshot) (key : String) :
    outputs (es.foldl mergeShardEntry s) key =
      (outputs s key).or ((es.find? fun e => e.1 = key).map fun e => e.2.outputsHash) := by
  induction es generalizing s with
  | nil => simp
  | cons e es ih =>
    rw [List.foldl_cons, ih, List.find?_cons]
    unfold outputs
    rw [get?_mergeShardEntry]
    by_cases hkey : e.1 = key
    · subst hkey
      rw [if_pos rfl]
      cases s.entries.get? e.1 with
      | none => simp
      | some f =>
        dsimp only
        split
        · simp [outputsHash_enrich ‹_›]
        · simp
    · rw [if_neg (Ne.symm hkey)]
      simp [hkey]

theorem outputs_mergeAll (s : Snapshot) (es : List (String × SnapshotEntry))
    (os : List CacheFileObservation) (key : String) :
    outputs (mergeAll s es os) key =
      (outputs s key).or ((es.find? fun e => e.1 = key).map fun e => e.2.outputsHash) := by
  rw [← outputs_foldl]
  unfold outputs mergeAll mergeCacheFileObservations
  rw [(observations_entries os _).1]

theorem outputs_mergeShardEntries (s shard : Snapshot) (key : String) :
    outputs (mergeShardEntries s shard) key = (outputs s key).or (outputs shard key) := by
  rw [mergeShardEntries_eq, outputs_mergeAll]
  congr 1
  unfold outputs BTreeMap.get?
  rw [Option.map_map]
  rfl

/-! ## Loading -/

section Load

variable {b : Bucket}

/-- What the shard of a bucket holds. -/
def decoded (codec : SnapshotCodec) (b : Bucket) (shard : SnapshotShard) : Option Snapshot :=
  (b.readShard shard).bind codec.decodeSnapshot

def loadAll (codec : SnapshotCodec) (b : Bucket) (m : MergedShards) (shards : List SnapshotShard) :
    MergedShards :=
  shards.foldl (fun m shard => MergedShards.load codec m shard (b.readShard shard)) m

theorem load_of_none {m : MergedShards} {shard : SnapshotShard} (h : decoded codec b shard = none) :
    m.load codec shard (b.readShard shard) = m := by
  unfold decoded at h
  unfold MergedShards.load
  rw [h]

theorem load_of_some {m : MergedShards} {shard : SnapshotShard} {s : Snapshot}
    (h : decoded codec b shard = some s) : m.load codec shard (b.readShard shard) =
      ⟨mergeShardEntries m.merged s, true, shard.shardId :: m.mergedShardIds⟩ := by
  unfold decoded at h
  unfold MergedShards.load
  rw [h]

/-- The outputs that are loaded for a key are those of the first shard that has it. -/
theorem outputs_loadAll (shards : List SnapshotShard) (m : MergedShards) (key : String) :
    outputs (loadAll codec b m shards).merged key = (outputs m.merged key).or
      ((shards.findSome? fun shard => (decoded codec b shard).bind (outputs · key))) := by
  induction shards generalizing m with
  | nil => simp [loadAll]
  | cons shard shards ih =>
    rw [loadAll, List.foldl_cons, ← loadAll, ih]
    cases hdec : decoded codec b shard with
    | none =>
      rw [load_of_none hdec]
      simp [hdec]
    | some s =>
      rw [load_of_some hdec]
      dsimp only
      rw [outputs_mergeShardEntries, List.findSome?_cons, hdec]
      cases hs : outputs s key with
      | none => simp [hs]
      | some d => cases outputs m.merged key <;> simp [hs]

theorem mem_mergedShardIds {shards : List SnapshotShard} {m : MergedShards} {id : String}
    (h : id ∈ m.mergedShardIds ∨ ∃ shard ∈ shards, shard.shardId = id ∧ decoded codec b shard ≠ none) :
    id ∈ (loadAll codec b m shards).mergedShardIds := by
  induction shards generalizing m with
  | nil => exact h.resolve_right (by simp)
  | cons shard shards ih =>
    rw [loadAll, List.foldl_cons, ← loadAll]
    apply ih
    cases hdec : decoded codec b shard with
    | none =>
      rw [load_of_none hdec]
      refine h.imp_right fun ⟨x, hx, hid, hne⟩ => ⟨x, ?_, hid, hne⟩
      rcases List.mem_cons.1 hx with rfl | hx
      · exact absurd hdec hne
      · exact hx
    | some s =>
      rw [load_of_some hdec]
      rcases h with h | ⟨x, hx, hid, hne⟩
      · exact .inl (List.mem_cons_of_mem _ h)
      · rcases List.mem_cons.1 hx with rfl | hx
        · exact .inl (hid ▸ List.mem_cons_self)
        · exact .inr ⟨x, hx, hid, hne⟩

theorem loadAll_fresh (shards : List SnapshotShard) {m : MergedShards}
    (h : m.sawAny = false → m.merged = .new) :
    (loadAll codec b m shards).sawAny = false → (loadAll codec b m shards).merged = .new := by
  induction shards generalizing m with
  | nil => exact h
  | cons shard shards ih =>
    rw [loadAll, List.foldl_cons, ← loadAll]
    apply ih
    cases hdec : decoded codec b shard with
    | none => rwa [load_of_none hdec]
    | some s =>
      rw [load_of_some hdec]
      exact nofun

theorem load_getD (codec : SnapshotCodec) (shardKey : String) (b : Bucket) :
    (b.load codec shardKey).getD .new = (b.loadMergedSnapshot codec shardKey).merged := by
  have hfresh : (b.loadMergedSnapshot codec shardKey).sawAny = false →
      (b.loadMergedSnapshot codec shardKey).merged = .new :=
    loadAll_fresh (b.visibleShards shardKey) fun _ => rfl
  unfold Bucket.load MergedShards.snapshot
  split
  · rfl
  · rename_i hsaw
    exact (hfresh (by simpa using hsaw)).symm

theorem lookup_eq (codec : SnapshotCodec) (shardKey : String) (b : Bucket) (key : String) :
    b.lookup codec shardKey key = (b.loadMergedSnapshot codec shardKey).merged.entries.get? key := by
  rw [← load_getD]
  unfold Bucket.lookup
  cases b.load codec shardKey <;> rfl

/-- The outputs that a lookup finds are those of the first shard that can be decoded and has the key. -/
theorem outputs_lookup (codec : SnapshotCodec) (shardKey : String) (b : Bucket) (key : String) :
    ((b.lookup codec shardKey key).map fun e => e.outputsHash) =
      (b.visibleShards shardKey).findSome? fun shard => (decoded codec b shard).bind (outputs · key) := by
  rw [lookup_eq]
  exact outputs_loadAll (b.visibleShards shardKey) ⟨.new, false, []⟩ key

theorem mem_visibleShards {shard : SnapshotShard} : shard ∈ b.visibleShards shardKey ↔
    (b.legacy.isSome = true ∧ shard = ⟨legacyShardId shardKey, .LegacyFile⟩) ∨
      ∃ id, (b.files.lookup id).isSome = true ∧ shard = ⟨id, .ShardFile⟩ := by
  unfold Bucket.visibleShards Bucket.listSnapshotShards
  rw [mem_sortBy, List.mem_append, List.mem_map]
  refine or_congr ?_ ?_
  · split
    · simp [*]
    · simp [*]
  · simp only [AList.mem_keys, AList.lookup_isSome, eq_comm (a := shard)]

/-- Hashes are listed before the legacy file. -/
theorem toHex_lt_legacy (d : Digest) : toHex d < legacyShardId shardKey := by
  have hdigit : ∀ n, hexDigit n < 'l' := by
    intro n
    unfold hexDigit
    rw [List.getD_eq_getElem?_getD]
    by_cases hn : n < 16
    · have : ∀ m < 16, ("0123456789abcdef".toList[m]?).getD '0' < 'l' := by decide
      exact this n hn
    · rw [List.getElem?_eq_none (by simpa using hn)]
      decide
  obtain ⟨b, l, hl⟩ : ∃ b l, d.toList = b :: l :=
    List.exists_cons_of_length_pos (by rw [Vector.length_toList]; decide)
  rw [String.lt_iff_toList_lt, toHex, String.toList_ofList, hl, legacyShardId, String.toList_append]
  exact List.Lex.rel (hdigit _)

end Load

/-! ## Durability -/

/-- What the updates ask to be kept: what could be loaded before, and of each key that could not, the
first update. -/
structure Durable (codec : SnapshotCodec) (shardKey : String) (b : Bucket)
    (entries : List SnapshotEntry) (b' : Bucket) : Prop where
  kept : ∀ key e, b.lookup codec shardKey key = some e →
    ∃ f, b'.lookup codec shardKey key = some f ∧ f.outputsHash = e.outputsHash
  updated : ∀ key e, b.lookup codec shardKey key = none →
    (entries.find? fun e => inputKeyHex e.inputKey = key) = some e →
    ∃ f, b'.lookup codec shardKey key = some f ∧ f.outputsHash = e.outputsHash

/-- Shards that can be decoded are named by the hash of their content, which no two of the contents
here share, and the content of a shard written can be read again. -/
structure NamedByContent (codec : SnapshotCodec) (b : Bucket) (c : Snapshot) : Prop where
  named : ∀ {id bytes s}, b.files.lookup id = some bytes → codec.decodeSnapshot bytes = some s →
    ∃ raw, codec.decompressSnapshotBytes bytes = some raw ∧ id = toHex (codec.blake3 raw)
  injective : Set.InjOn codec.blake3 {raw | raw = codec.encode c ∨ ∃ id bytes,
    b.files.lookup id = some bytes ∧ codec.decompressSnapshotBytes bytes = some raw}
  decompressed : ∀ {bytes}, codec.compress (codec.encode c) = some bytes →
    codec.decompressSnapshotBytes bytes = some (codec.encode c)
  decoded : ∀ {bytes}, codec.decompressSnapshotBytes bytes = some (codec.encode c) →
    codec.decodeSnapshot bytes = some c

/-- Some update has a key that cannot be loaded yet. -/
def BringsKey (codec : SnapshotCodec) (shardKey : String) (b : Bucket) (entries : List SnapshotEntry) :
    Prop :=
  ∃ e ∈ entries, b.lookup codec shardKey (inputKeyHex e.inputKey) = none

section Durable

variable {b : Bucket} {entries : List SnapshotEntry} {os : List CacheFileObservation}

theorem durable_self_iff : Durable codec shardKey b entries b ↔ ¬ BringsKey codec shardKey b entries := by
  constructor
  · rintro h ⟨e, he, hnone⟩
    obtain ⟨f, hf⟩ := Option.isSome_iff_exists.1 (List.find?_isSome.2
      (⟨e, he, decide_eq_true rfl⟩ : ∃ f ∈ entries,
        decide (inputKeyHex f.inputKey = inputKeyHex e.inputKey) = true))
    obtain ⟨g, hg, -⟩ := h.updated _ f hnone hf
    rw [hnone] at hg
    contradiction
  · intro h
    refine ⟨fun key e he => ⟨e, he, rfl⟩, fun key e hnone hfind => ?_⟩
    have hkey : inputKeyHex e.inputKey = key := by simpa using List.find?_some hfind
    exact absurd ⟨e, List.mem_of_find?_eq_some hfind, hkey ▸ hnone⟩ h

/-- What is loaded and the updates, of the same outputs. -/
theorem outputs_consolidated (key : String) :
    outputs (b.consolidated codec shardKey entries os) key =
      ((b.lookup codec shardKey key).map fun e => e.outputsHash).or
        ((entries.find? fun e => inputKeyHex e.inputKey = key).map fun e => e.outputsHash) := by
  unfold Bucket.consolidated
  rw [mergeSnapshotUpdates_eq, outputs_mergeAll, load_getD, lookup_eq]
  unfold outputs
  rw [List.find?_map, Option.map_map]
  rfl

theorem durable_of_outputs {b' : Bucket}
    (h : ∀ key d, outputs (b.consolidated codec shardKey entries os) key = some d →
      ((b'.lookup codec shardKey key).map fun e => e.outputsHash) = some d) :
    Durable codec shardKey b entries b' := by
  refine ⟨fun key e he => ?_, fun key e hnone hfind => ?_⟩
  · have := h key e.outputsHash (by rw [outputs_consolidated, he]; rfl)
    obtain ⟨f, hf, hout⟩ := Option.map_eq_some_iff.1 this
    exact ⟨f, hf, hout⟩
  · have := h key e.outputsHash (by rw [outputs_consolidated, hnone, hfind]; rfl)
    obtain ⟨f, hf, hout⟩ := Option.map_eq_some_iff.1 this
    exact ⟨f, hf, hout⟩

/-- Where the updates change nothing, their keys can be loaded. -/
theorem not_bringsKey_of_unchanged
    (h : (mergeSnapshotUpdates ((b.load codec shardKey).getD .new) entries os).2.changed = false) :
    ¬ BringsKey codec shardKey b entries := by
  rintro ⟨e, he, hnone⟩
  obtain ⟨-, hsame⟩ := changed_entries entries (Bool.or_eq_false_iff.1 h).1
  rw [foldl_mergeSnapshotEntry_fst] at hsame
  obtain ⟨-, hsettled, -, -⟩ := foldl_mergeShardEntry (entries.map keyed)
    ((b.load codec shardKey).getD .new)
  obtain ⟨f, hf, -⟩ := hsettled (keyed e) (List.mem_map_of_mem he)
  rw [hsame, load_getD, ← lookup_eq] at hf
  exact Option.some_ne_none f (hf.symm.trans hnone)

theorem lookup_deleteShards (b : Bucket) (ids : List String) (id : String) :
    (b.deleteShards ids).files.lookup id = if id ∈ ids then none else b.files.lookup id := by
  obtain ⟨legacy, files⟩ := b
  show (ids.foldl (fun files id => files.erase id) files).lookup id = _
  induction ids generalizing files with
  | nil => simp
  | cons i ids ih =>
    rw [List.foldl_cons, ih]
    by_cases hid : id = i
    · subst hid
      simp
    · rw [AList.lookup_erase_ne hid]
      simp [hid]

/-- The bucket once the shard is written and the ones that went into it are deleted. -/
def afterWrite (codec : SnapshotCodec) (shardKey : String) (b : Bucket) (c : Snapshot) (bytes : Bytes) :
    Bucket :=
  Bucket.deleteShards { b with files := b.files.insert (codec.shardId c) bytes }
    (subsumedShardIds (b.visibleShards shardKey) (b.loadMergedSnapshot codec shardKey).mergedShardIds)

/-- After that, loading finds the shard first. -/
theorem outputs_afterWrite {c : Snapshot} {bytes : Bytes} {key : String} {d : Digest}
    (hnamed : NamedByContent codec b c) (hfree : b.files.lookup (codec.shardId c) = none)
    (hbytes : codec.compress (codec.encode c) = some bytes) (hd : outputs c key = some d) :
    (((afterWrite codec shardKey b c bytes).lookup codec shardKey key).map fun e => e.outputsHash) =
      some d := by
  unfold afterWrite
  generalize hsub : subsumedShardIds (b.visibleShards shardKey)
    (b.loadMergedSnapshot codec shardKey).mergedShardIds = subsumed
  have hsubsumed : ∀ id, id ∈ subsumed ↔ (b.files.lookup id).isSome = true ∧
      id ∈ (b.loadMergedSnapshot codec shardKey).mergedShardIds := by
    intro id
    rw [← hsub]
    unfold subsumedShardIds
    rw [List.mem_filterMap]
    constructor
    · rintro ⟨shard, hshard, hid⟩
      obtain ⟨hvisible, hmerged⟩ := List.mem_filter.1 hshard
      rcases mem_visibleShards.1 hvisible with ⟨-, rfl⟩ | ⟨id', hid', rfl⟩
      · contradiction
      · obtain rfl := Option.some.inj hid
        exact ⟨hid', of_decide_eq_true hmerged⟩
    · rintro ⟨hid, hmerged⟩
      refine ⟨⟨id, .ShardFile⟩, List.mem_filter.2 ⟨?_, decide_eq_true hmerged⟩, rfl⟩
      exact mem_visibleShards.2 (.inr ⟨id, hid, rfl⟩)
  generalize hb' : Bucket.deleteShards { b with files := b.files.insert (codec.shardId c) bytes }
    subsumed = b'
  have hlookup : ∀ id, b'.files.lookup id = if id ∈ subsumed then none else
      if id = codec.shardId c then some bytes else b.files.lookup id := fun id => by
    rw [← hb', lookup_deleteShards]
    dsimp only
    rw [HashMap.lookup_insert_if]
  have hlegacy : b'.legacy = b.legacy := by rw [← hb']; rfl
  have hnot : codec.shardId c ∉ subsumed := fun h => by
    have := ((hsubsumed _).1 h).1
    rw [hfree] at this
    contradiction
  let shard : SnapshotShard := ⟨codec.shardId c, .ShardFile⟩
  have hshard : decoded codec b' shard = some c := by
    show (b'.files.lookup (codec.shardId c)).bind codec.decodeSnapshot = some c
    rw [hlookup, if_neg hnot, if_pos rfl]
    exact hnamed.decoded (hnamed.decompressed hbytes)
  have hmem : shard ∈ b'.visibleShards shardKey := by
    refine mem_visibleShards.2 (.inr ⟨codec.shardId c, ?_, rfl⟩)
    rw [hlookup, if_neg hnot, if_pos rfl]
    rfl
  rw [outputs_lookup]
  obtain ⟨l, r, hlr, hfirst⟩ := List.eq_append_cons_of_mem hmem
  -- nothing that stands before the new shard can be decoded
  have hbefore : ∀ x ∈ l, decoded codec b' x = none := by
    intro x hx
    have hle : x.shardId ≤ codec.shardId c := by
      have := pairwise_le_sortBy SnapshotShard.shardId
        ((if b'.legacy.isSome then [⟨legacyShardId shardKey, .LegacyFile⟩] else []) ++
          b'.files.keys.map fun name => ⟨name, .ShardFile⟩)
      rw [show sortBy SnapshotShard.shardId _ = b'.visibleShards shardKey from rfl, hlr,
        List.pairwise_append] at this
      exact this.2.2 x hx shard List.mem_cons_self
    have hxmem : x ∈ b'.visibleShards shardKey := hlr ▸ List.mem_append_left _ hx
    rcases mem_visibleShards.1 hxmem with ⟨-, rfl⟩ | ⟨id, -, rfl⟩
    · exact absurd hle (not_le.2 (toHex_lt_legacy _))
    · have hne : id ≠ codec.shardId c := by
        rintro rfl
        exact hfirst hx
      by_contra hdec
      show False
      have hold : decoded codec b' ⟨id, .ShardFile⟩ = if id ∈ subsumed then none else
          decoded codec b ⟨id, .ShardFile⟩ := by
        show (b'.files.lookup id).bind codec.decodeSnapshot = _
        rw [hlookup, if_neg hne]
        split <;> rfl
      rw [hold] at hdec
      split at hdec
      · exact hdec rfl
      · rename_i hnotin
        have hsome : (b.files.lookup id).isSome = true := by
          unfold decoded at hdec
          rw [Option.isSome_iff_ne_none]
          intro hnone
          exact hdec (by rw [Bucket.readShard, hnone]; rfl)
        refine hnotin ((hsubsumed id).2 ⟨hsome, ?_⟩)
        refine mem_mergedShardIds (.inr ⟨⟨id, .ShardFile⟩, ?_, rfl, hdec⟩)
        exact mem_visibleShards.2 (.inr ⟨id, hsome, rfl⟩)
  have hl : (l.findSome? fun shard => (decoded codec b' shard).bind (outputs · key)) = none := by
    refine List.findSome?_eq_none_iff.2 fun x hx => ?_
    rw [hbefore x hx]
    rfl
  rw [hlr, List.findSome?_append, hl, List.findSome?_cons, hshard]
  simp [hd]

/-- A file that can be decoded and has the name of the new shard is that shard. -/
theorem not_bringsKey_of_decoded {bytes : Bytes}
    (hnamed : NamedByContent codec b (b.consolidated codec shardKey entries os))
    (hlookup : b.files.lookup (codec.shardId (b.consolidated codec shardKey entries os)) = some bytes)
    (hdecode : (codec.decodeSnapshot bytes).isSome = true) :
    ¬ BringsKey codec shardKey b entries := by
  rintro ⟨e, he, hnone⟩
  obtain ⟨s, hs⟩ := Option.isSome_iff_exists.1 hdecode
  obtain ⟨raw, hraw, hid⟩ := hnamed.named hlookup hs
  have heq : codec.encode (b.consolidated codec shardKey entries os) = raw :=
    hnamed.injective (.inl rfl) (.inr ⟨_, _, hlookup, hraw⟩) (toHex_injective hid)
  have hdec := hnamed.decoded (heq ▸ hraw)
  -- so the shard was loaded, with the keys of all updates
  have hout := outputs_lookup codec shardKey b (inputKeyHex e.inputKey)
  rw [hnone] at hout
  have hshard := List.findSome?_eq_none_iff.1 hout.symm
    ⟨codec.shardId (b.consolidated codec shardKey entries os), .ShardFile⟩
    (mem_visibleShards.2 (.inr ⟨_, by rw [hlookup]; rfl, rfl⟩))
  have hdecoded : decoded codec b ⟨codec.shardId (b.consolidated codec shardKey entries os),
      .ShardFile⟩ = some (b.consolidated codec shardKey entries os) := by
    show (b.files.lookup _).bind codec.decodeSnapshot = _
    rw [hlookup]
    exact hdec
  rw [hdecoded, Option.bind_some, outputs_consolidated, hnone, Option.map_none, Option.none_or,
    Option.map_eq_none_iff, List.find?_eq_none] at hshard
  exact hshard e he (decide_eq_true rfl)

/-- A merge that is not skipped keeps what there was and what it was given, if and only if no file that
cannot be decoded has the name of the shard it would write, or no update has a new key. -/
theorem merge_durable (ops : FileOps)
    (hnamed : NamedByContent codec b (b.consolidated codec shardKey entries os))
    (hresult : (b.mergeUpdatesWithOutcome codec shardKey ops entries os).2.result ≠
      .SkippedLockUnavailable) :
    Durable codec shardKey b entries (b.mergeUpdatesWithOutcome codec shardKey ops entries os).1 ↔
      (BringsKey codec shardKey b entries → ∀ bytes,
        b.files.lookup (codec.shardId (b.consolidated codec shardKey entries os)) = some bytes →
          (codec.decodeSnapshot bytes).isSome = true) := by
  have hnoop : ∀ {b' : Bucket}, b' = b → ¬ BringsKey codec shardKey b entries →
      (Durable codec shardKey b entries b' ↔ (BringsKey codec shardKey b entries → ∀ bytes,
        b.files.lookup (codec.shardId (b.consolidated codec shardKey entries os)) = some bytes →
          (codec.decodeSnapshot bytes).isSome = true)) := by
    rintro b' rfl h
    exact ⟨fun _ hbrings => absurd hbrings h, fun _ => durable_self_iff.2 h⟩
  unfold Bucket.mergeUpdatesWithOutcome at hresult ⊢
  split
  · rename_i hempty
    refine hnoop rfl ?_
    rintro ⟨e, he, -⟩
    rw [hempty.1] at he
    contradiction
  · rename_i hempty
    rw [if_neg hempty] at hresult
    split
    · rename_i hcreate
      rw [if_pos hcreate] at hresult
      exact absurd rfl hresult
    · rename_i hcreate
      rw [if_neg hcreate] at hresult
      have hgetD : (b.loadMergedSnapshot codec shardKey).snapshot.getD .new =
          (b.load codec shardKey).getD .new := rfl
      have hcons : (mergeSnapshotUpdates ((b.load codec shardKey).getD .new) entries os).1 =
          b.consolidated codec shardKey entries os := rfl
      dsimp only at hresult ⊢
      rw [hgetD] at hresult ⊢
      split
      · rename_i hchanged
        rw [if_pos hchanged] at hresult
        rw [hcons] at hresult ⊢
        unfold Bucket.writeConsolidatedShard at hresult ⊢
        dsimp only at hresult ⊢
        split
        · -- a file has the name already
          rename_i hexists
          obtain ⟨bytes, hlookup⟩ := Option.isSome_iff_exists.1 hexists
          constructor
          · exact fun h hbrings => absurd hbrings (durable_self_iff.1 h)
          · intro h
            refine durable_self_iff.2 fun hbrings => ?_
            exact not_bringsKey_of_decoded hnamed hlookup (h hbrings bytes hlookup) hbrings
        · rename_i hfree
          rw [if_neg hfree] at hresult
          have hnone : b.files.lookup (codec.shardId (b.consolidated codec shardKey entries os)) =
              none := by simpa using hfree
          cases hbytes : codec.compress (codec.encode (b.consolidated codec shardKey entries os)) with
          | none =>
            rw [hbytes] at hresult
            exact absurd rfl hresult
          | some bytes =>
            rw [hbytes] at hresult
            dsimp only at hresult ⊢
            split
            · refine ⟨fun _ _ bytes hlookup => ?_, fun _ => ?_⟩
              · rw [hnone] at hlookup
                contradiction
              · exact durable_of_outputs fun key d hd => outputs_afterWrite hnamed hnone hbytes hd
            · rename_i hwrite
              rw [if_neg hwrite] at hresult
              exact absurd rfl hresult
      · rename_i hchanged
        exact hnoop rfl (not_bringsKey_of_unchanged (by simpa using hchanged))

end Durable

/-! ## A corrupt file -/

section Samples

/-- A bucket with no file but one, that cannot be decoded. -/
def corruptBucket (id : String) : Bucket := ⟨none, .ofList [(id, [9])]⟩

theorem namedByContent_corruptBucket (id : String) :
    NamedByContent sampleCodec (corruptBucket id) (sample 100 []) := by
  have hencode : sampleCodec.encode (sample 100 []) = [0] := by decide +kernel
  have hdecode : sampleCodec.decodeSnapshot [0] = some (sample 100 []) := by decide +kernel
  have hraw : ∀ bytes, sampleCodec.decompressSnapshotBytes bytes = some bytes := fun bytes => by
    unfold SnapshotCodec.decompressSnapshotBytes
    split <;> rfl
  have hfiles : ∀ {id' bytes}, (corruptBucket id).files.lookup id' = some bytes → bytes = [9] := by
    intro id' bytes h
    have hmem := AList.mem_lookup_iff.1 h
    exact congrArg Sigma.snd (List.mem_singleton.1 hmem)
  refine ⟨fun {_ bytes s} hlookup hs => ?_, ?_, fun {bytes} h => ?_, fun {bytes} h => ?_⟩
  · rw [hfiles hlookup, show sampleCodec.decodeSnapshot [9] = none by decide +kernel] at hs
    contradiction
  · have hmem : ∀ raw ∈ {raw | raw = sampleCodec.encode (sample 100 []) ∨ ∃ id' bytes,
        (corruptBucket id).files.lookup id' = some bytes ∧
          sampleCodec.decompressSnapshotBytes bytes = some raw}, raw = [0] ∨ raw = [9] := by
      rintro raw (hraw' | ⟨id', bytes, hlookup, hbytes⟩)
      · exact .inl (hraw'.trans hencode)
      · rw [hraw] at hbytes
        exact .inr ((Option.some.inj hbytes).symm.trans (hfiles hlookup))
    intro raw hr raw' hr' h
    rcases hmem raw hr with rfl | rfl
    · rcases hmem raw' hr' with rfl | rfl
      · rfl
      · exact absurd h (by decide +kernel)
    · rcases hmem raw' hr' with rfl | rfl
      · exact absurd h (by decide +kernel)
      · rfl
  · obtain rfl := Option.some.inj h
    rw [hraw]
  · obtain rfl := Option.some.inj ((hraw bytes).symm.trans h)
    rw [hencode]
    exact hdecode

/-- A file with another name is not in the way. -/
theorem merge_durable_sample : Durable sampleCodec "20260807-00" (corruptBucket (sampleShard 1))
    [lint 100] ((corruptBucket (sampleShard 1)).mergeUpdatesWithOutcome sampleCodec "20260807-00"
      ⟨true, true⟩ [lint 100] []).1 := by
  have hunion : (corruptBucket (sampleShard 1)).consolidated sampleCodec "20260807-00" [lint 100] [] =
      sample 100 [] := by decide +kernel
  have hfree : (corruptBucket (sampleShard 1)).files.lookup (sampleCodec.shardId (sample 100 [])) =
      none := by decide +kernel
  refine (merge_durable ⟨true, true⟩ ?_ (by decide +kernel)).2 fun _ bytes h => ?_
  · rw [hunion]
    exact namedByContent_corruptBucket _
  · rw [hunion, hfree] at h
    exact absurd h.symm (Option.some_ne_none bytes)

/-- The corrupt file has the name of the shard that the merge would write: the merge says that there
is nothing to do, and the new entry is not found afterwards. -/
theorem merge_not_durable :
    NamedByContent sampleCodec (corruptBucket (sampleShard 0))
      ((corruptBucket (sampleShard 0)).consolidated sampleCodec "20260807-00" [lint 100] []) ∧
    ((corruptBucket (sampleShard 0)).mergeUpdatesWithOutcome sampleCodec "20260807-00" ⟨true, true⟩
      [lint 100] []).2.result = .IdempotentNoop ∧
    ¬ Durable sampleCodec "20260807-00" (corruptBucket (sampleShard 0)) [lint 100]
      ((corruptBucket (sampleShard 0)).mergeUpdatesWithOutcome sampleCodec "20260807-00" ⟨true, true⟩
        [lint 100] []).1 := by
  refine ⟨?_, by decide +kernel, fun h => ?_⟩
  · rw [show (corruptBucket (sampleShard 0)).consolidated sampleCodec "20260807-00" [lint 100] [] =
      sample 100 [] by decide +kernel]
    exact namedByContent_corruptBucket _
  · have hnone : ((corruptBucket (sampleShard 0)).mergeUpdatesWithOutcome sampleCodec "20260807-00"
        ⟨true, true⟩ [lint 100] []).1.lookup sampleCodec "20260807-00" sampleKey = none := by
      decide +kernel
    obtain ⟨f, hf, -⟩ := h.updated sampleKey (lint 100) (by decide +kernel) (by decide +kernel)
    rw [hnone] at hf
    exact Option.some_ne_none f hf.symm

end Samples

end Luchta.Proof.Store
