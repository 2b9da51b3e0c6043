import Luchta.Proof.Store.Merge

/-!
# Keys that merges keep

* `UndecodableInv`: what cannot be decoded stays where it is.
* `merge_keeps_keys`: no input key is lost, unless a merge has nothing new but an observation that is
  too old to be kept; `merge_loses_key` is a run in which two merges do.
-/

namespace Luchta.Proof.Store

open Luchta.Framework Luchta.Impl

variable {codec : SnapshotCodec} {shardKey : String} {init : Bucket} {written : Set Snapshot}
  {out : String → Digest} {state state' : StoreState}

/-! ## Shards that cannot be decoded -/

/-- A merge in this phase neither deletes nor overwrites the shard. -/
def Spares (codec : SnapshotCodec) (id : String) : MergePhase → Prop
  | .read _ _ loaded => id ∉ loaded.mergedShardIds
  | .check _ ids _ => id ∉ ids
  | .write _ ids c => id ∉ ids ∧ id ≠ codec.shardId c
  | .delete _ _ todo => id ∉ todo
  | _ => True

/-- A shard that cannot be decoded does not count as merged, and no shard is written over it. -/
theorem spares_step {b b' : Bucket} {m : Merge} {l : MergeLabel} {p : MergePhase} {id : String}
    {bytes : Bytes} (hid : id ≠ legacyShardId shardKey) (hlookup : b.files.lookup id = some bytes)
    (hdecode : codec.decodeSnapshot bytes = none) (hm : Spares codec id m.phase)
    (hsource : ∀ visible todo loaded, m.phase = .read visible todo loaded → ∀ shard ∈ todo,
      shard.source = .LegacyFile → shard.shardId = legacyShardId shardKey)
    (h : m.step codec shardKey b l = some (b', p)) :
    Spares codec id p ∧ b'.files.lookup id = some bytes := by
  unfold Merge.step at h
  split at h
  · split at h
    · cases h
      exact ⟨trivial, hlookup⟩
    · split at h
      · cases h
        exact ⟨trivial, hlookup⟩
      · cases h
        exact ⟨trivial, hlookup⟩
  · cases h
    exact ⟨List.not_mem_nil, hlookup⟩
  · rename_i visible shard todo loaded ok hp
    cases h
    rw [hp] at hm
    refine ⟨?_, hlookup⟩
    show id ∉ (MergedShards.load codec loaded shard _).mergedShardIds
    unfold MergedShards.load
    split
    · exact hm
    · rename_i s hs
      refine mt List.mem_cons.1 (not_or.2 ⟨?_, hm⟩)
      rintro rfl
      obtain ⟨bytes', hbytes, hdecode'⟩ := Option.bind_eq_some_iff.1 hs
      have hread : b.readShard shard = some bytes' := by
        cases ok with
        | true => exact hbytes
        | false => contradiction
      unfold Bucket.readShard at hread
      cases hsrc : shard.source with
      | LegacyFile => exact hid (hsource _ _ _ hp shard (.head _) hsrc)
      | ShardFile =>
        rw [hsrc] at hread
        obtain rfl := Option.some.inj (hread.symm.trans hlookup)
        rw [hdecode] at hdecode'
        contradiction
  · rename_i visible loaded hp
    rw [hp] at hm
    dsimp only at h
    split at h
    · cases h
      exact ⟨hm, hlookup⟩
    · cases h
      exact ⟨trivial, hlookup⟩
  · rename_i visible ids consolidated hp
    rw [hp] at hm
    split at h
    · cases h
      exact ⟨trivial, hlookup⟩
    · rename_i hnone
      cases h
      refine ⟨⟨hm, ?_⟩, hlookup⟩
      rintro rfl
      exact hnone (Option.isSome_of_mem hlookup)
  · rename_i visible ids consolidated ok hp
    rw [hp] at hm
    split at h
    · cases h
      exact ⟨trivial, hlookup⟩
    · split at h
      · cases h
        refine ⟨fun hmem => hm.1 (mem_of_mem_subsumed hmem), ?_⟩
        refine (HashMap.lookup_insert_if ..).trans ?_
        rw [if_neg hm.2, hlookup]
      · cases h
        exact ⟨trivial, hlookup⟩
  · rename_i upload subsumed id' todo ok hp
    rw [hp] at hm
    obtain ⟨hne, hm⟩ := not_or.1 (mt List.mem_cons.2 hm)
    cases h
    refine ⟨hm, ?_⟩
    cases ok with
    | true => exact (AList.lookup_erase_ne hne).trans hlookup
    | false => exact hlookup
  · cases h
    exact ⟨trivial, hlookup⟩
  · contradiction

/-- The shards that cannot be decoded are those there were at first, and every merge spares them. -/
structure UndecodableInv (codec : SnapshotCodec) (init : Bucket) (state : StoreState) : Prop where
  initial : ∀ {id bytes}, state.bucket.files.lookup id = some bytes →
    codec.decodeSnapshot bytes = none → init.files.lookup id = some bytes
  kept : ∀ {id bytes}, init.files.lookup id = some bytes → codec.decodeSnapshot bytes = none →
    state.bucket.files.lookup id = some bytes ∧ ∀ m ∈ state.merges, Spares codec id m.phase

theorem UndecodableInv.start (h : (storeSystem codec shardKey init).init state) :
    UndecodableInv codec init state := by
  obtain ⟨hbucket, hmerges⟩ := h
  refine ⟨fun hlookup _ => hbucket ▸ hlookup, fun hlookup _ => ⟨hbucket ▸ hlookup, ?_⟩⟩
  intro m hm
  rw [hmerges m hm]
  trivial

theorem UndecodableInv.step (hsound : Sound codec init written out)
    (hinv : StoreInv codec shardKey init written out state) (hundec : UndecodableInv codec init state)
    {l : Nat × MergeLabel} (h : state.step codec shardKey l = some state') :
    UndecodableInv codec init state' := by
  refine ⟨fun hlookup hdecode => ?_, fun {id bytes} hlookup hdecode => ?_⟩
  · rcases lookup_step h hlookup with hlookup | ⟨m, hm, visible, ids, c, hp, -, hbytes⟩
    · exact hundec.initial hlookup hdecode
    · -- what a merge has written can be decoded
      have hinvm := hinv.merges m hm
      rw [hp] at hinvm
      rw [hsound.stored hinvm.1 hbytes] at hdecode
      contradiction
  · obtain ⟨hkept, hspares⟩ := hundec.kept hlookup hdecode
    obtain ⟨m, p, hm, hstep, hmerges⟩ := state_step h
    have hmem := List.mem_of_getElem? hm
    obtain ⟨d, rfl⟩ := hsound.hashes (Option.isSome_of_mem hlookup)
    obtain ⟨hp, hlookup'⟩ := spares_step (toHex_ne_legacy d shardKey) hkept hdecode (hspares m hmem)
      (fun visible todo loaded hphase => by
        have hinvm := hinv.merges m hmem
        rw [hphase] at hinvm
        exact hinvm.2) hstep
    refine ⟨hlookup', ?_⟩
    rw [hmerges]
    exact forall_mem_set hp hspares

/-! ## Keys -/

theorem hasKey_iff {b : Bucket} {key : String} : b.hasKey codec key = true ↔
    (∃ bytes s, b.legacy = some bytes ∧ codec.decodeSnapshot bytes = some s ∧
      (s.entries.get? key).isSome) ∨
    ∃ id bytes s, b.files.lookup id = some bytes ∧ codec.decodeSnapshot bytes = some s ∧
      (s.entries.get? key).isSome := by
  rw [Bucket.hasKey, List.any_append, Bool.or_eq_true, List.any_eq_true, List.any_eq_true]
  refine or_congr ⟨?_, ?_⟩ ⟨?_, ?_⟩
  · rintro ⟨bytes, hmem, hany⟩
    obtain ⟨s, hs, hkey⟩ := (Option.any_eq_true _ _).1 hany
    exact ⟨bytes, s, Option.mem_toList.1 hmem, hs, hkey⟩
  · rintro ⟨bytes, s, hmem, hs, hkey⟩
    exact ⟨bytes, Option.mem_toList.2 hmem, by rw [hs]; exact hkey⟩
  · rintro ⟨bytes, hmem, hany⟩
    obtain ⟨s, hs, hkey⟩ := (Option.any_eq_true _ _).1 hany
    obtain ⟨⟨id, bytes⟩, he, rfl⟩ := List.mem_map.1 hmem
    exact ⟨id, bytes, s, AList.mem_lookup_iff.2 he, hs, hkey⟩
  · rintro ⟨id, bytes, s, hmem, hs, hkey⟩
    exact ⟨bytes, List.mem_map.2 ⟨⟨id, bytes⟩, AList.mem_lookup_iff.1 hmem, rfl⟩,
      by rw [hs]; exact hkey⟩

theorem Covered.hasKey {s : Snapshot} (h : Covered codec state s) {key : String}
    (hkey : (s.entries.get? key).isSome) : state.bucket.hasKey codec key = true := by
  obtain ⟨id, bytes, t, hlookup, hdecode, hle, -⟩ := h
  refine hasKey_iff.2 (.inr ⟨id, bytes, t, hlookup, hdecode, ?_⟩)
  have hrank : entriesRank s key ≤ entriesRank t key := hle.1 key
  obtain ⟨e, he⟩ := Option.isSome_iff_exists.1 hkey
  unfold entriesRank at hrank
  rw [he] at hrank
  cases ht : t.entries.get? key with
  | some f => rfl
  | none =>
    rw [ht] at hrank
    exact absurd (le_bot_iff.1 hrank) WithBot.coe_ne_bot

/-! ## Runs -/

/-- The steps in which no merge has nothing but what is too old to be kept. -/
def Admitted (written : Set Snapshot) (out : String → Digest) (state : StoreState)
    (l : Nat × MergeLabel) : Prop :=
  Updates written out state l ∧ ¬ DropsOnly state l

instance [DecidablePred (· ∈ written)] (l : Nat × MergeLabel) :
    Decidable (Admitted written out state l) := inferInstanceAs (Decidable (_ ∧ _))

theorem reach_inv (hsound : Sound codec init written out)
    (h : Reach (storeSystem codec shardKey init) (Admitted written out) state) :
    StoreInv codec shardKey init written out state ∧ UndecodableInv codec init state := by
  refine h.invariant (I := fun s => StoreInv codec shardKey init written out s ∧
    UndecodableInv codec init s) ?_ ?_
  · intro s hs
    exact ⟨.start hsound hs, .start hs⟩
  · intro s l t _ hinv hc hs
    exact ⟨hinv.1.step hsound hc.1 hc.2 hs, hinv.2.step hsound hinv.1 hs⟩

/-- Whatever is covered stays covered. -/
theorem reach_covered (hsound : Sound codec init written out)
    (h : Reach (storeSystem codec shardKey init) (Admitted written out) state)
    (h' : Reach ((storeSystem codec shardKey init).resume state) (Admitted written out) state')
    {s : Snapshot} (hs : Covered codec state s) : Covered codec state' s := by
  induction h' with
  | init heq => exact heq ▸ hs
  | step hreach _ hstep ih =>
    exact Covered.step hsound (reach_inv hsound (h.resume hreach)).1 hstep ih

theorem reach_legacy
    (h : Reach ((storeSystem codec shardKey init).resume state) (Admitted written out) state') :
    state'.bucket.legacy = state.bucket.legacy := by
  refine h.invariant (I := fun s => s.bucket.legacy = state.bucket.legacy) ?_ ?_
  · intro s heq
    rw [show s = state from heq]
  · intro s l t _ hinv _ hs
    exact (legacy_step hs).trans hinv

/-- In every run of any number of merges in which no merge has nothing new but an observation too old
to be kept: a key that is in the union of the shards stays there, and so do the keys a
merge has written, its updates among them; what cannot be decoded stays as it is, and so does the
legacy file. -/
theorem merge_keeps_keys (hsound : Sound codec init written out)
    (h : Reach (storeSystem codec shardKey init) (Admitted written out) state)
    (h' : Reach ((storeSystem codec shardKey init).resume state) (Admitted written out) state') :
    (∀ key, state.bucket.hasKey codec key → state'.bucket.hasKey codec key) ∧
    (∀ m ∈ state.merges, ∀ u, upload m.phase = some u →
      ∃ c, codec.decodeSnapshot u.shardBytes = some c ∧ HasKeys m.entries c ∧
        ∀ key, (c.entries.get? key).isSome → state'.bucket.hasKey codec key) ∧
    (∀ id bytes, state.bucket.files.lookup id = some bytes → codec.decodeSnapshot bytes = none →
      state'.bucket.files.lookup id = some bytes) ∧
    state'.bucket.legacy = state.bucket.legacy := by
  obtain ⟨hinv, hundec⟩ := reach_inv hsound h
  obtain ⟨-, hundec'⟩ := reach_inv hsound (h.resume h')
  have hcov : ∀ s, Covered codec state s → Covered codec state' s := fun s =>
    reach_covered hsound h h'
  refine ⟨fun key hkey => ?_, fun m hm u hu => ?_, fun id bytes hlookup hdecode => ?_,
    reach_legacy h'⟩
  · rcases hasKey_iff.1 hkey with ⟨bytes, s, hlegacy, hdecode, hs⟩ |
      ⟨id, bytes, s, hlookup, hdecode, hs⟩
    · exact hasKey_iff.2 (.inl ⟨bytes, s, (reach_legacy h').trans hlegacy, hdecode, hs⟩)
    · exact (hcov s (hinv.covered hlookup hdecode)).hasKey hs
  · have hinvm := hinv.merges m hm
    cases hp : m.phase with
    | delete u' subsumed todo =>
      rw [hp] at hinvm hu
      obtain ⟨c, -, hdecode, hcovered, hkeys, -⟩ := hinvm
      obtain rfl := Option.some.inj hu
      exact ⟨c, hdecode, hkeys, fun key => (hcov c hcovered).hasKey⟩
    | done outcome =>
      rw [hp] at hinvm hu
      obtain ⟨c, hdecode, hcovered, hkeys⟩ := hinvm u hu
      exact ⟨c, hdecode, hkeys, fun key => (hcov c hcovered).hasKey⟩
    | _ =>
      rw [hp] at hu
      contradiction
  · exact (hundec'.kept (hundec.initial hlookup hdecode) hdecode).1

/-! ## Two merges of two shards -/

section Samples

/-- A tombstone of the one scope there is. -/
def observedAt (t : Nat) : CacheFileObservation :=
  ⟨Digest.zero, Vector.replicate 32 (.ofNat t), none, 0, .ofNat t⟩

def lint (durationMs : UInt64) : SnapshotEntry where
  taskId := "app#lint"
  inputKey := Digest.zero
  outputsHash := Digest.zero
  taskSpecHash := Digest.zero
  envHash := Digest.zero
  pkgDepHash := Digest.zero
  durationMs := durationMs
  outputBytes := 0
  cachedAtUnixMs := 0
  toolVersion := none
  inlineMeta := none
  durationTrusted := true

def sampleKey : String := inputKeyHex Digest.zero

def sample (durationMs : UInt64) (ages : List Nat) : Snapshot where
  schemaVersion := SNAPSHOT_SCHEMA_VERSION
  entries := .ofList [(sampleKey, lint durationMs)]
  cacheFiles := if ages = [] then .empty else .ofList [(sampleKey, ages.map observedAt)]

/-- A run, another one with eight observations, and what merging the two gives, without and with a
ninth observation that is newer. -/
def samples : List Snapshot :=
  [sample 100 [], sample 200 [8, 7, 6, 5, 4, 3, 2, 1], sample 100 [8, 7, 6, 5, 4, 3, 2, 1],
    sample 100 [9, 8, 7, 6, 5, 4, 3, 2]]

def sampleWritten : Set Snapshot := {s | s ∈ samples}

instance : DecidablePred (· ∈ sampleWritten) := fun s => inferInstanceAs (Decidable (s ∈ samples))

/-- Snapshots are stored as their places among the samples. -/
def sampleCodec : SnapshotCodec where
  encode s := [.ofNat (samples.findIdx (· = s))]
  decodeVersion _ := some SNAPSHOT_SCHEMA_VERSION
  decodeV2 _ := none
  decodeV3 _ := none
  decodeV4 bytes := bytes.head?.bind fun b => samples[b.toNat]?
  compress := some
  decompress := some
  blake3 bytes := Vector.replicate 32 (bytes.headD 0)

def sampleShard (i : Nat) : String := toHex (Vector.replicate 32 (.ofNat i))

def sampleBucket : Bucket := ⟨none, .ofList [(sampleShard 0, [0]), (sampleShard 1, [1])]⟩

/-- Two merges that bring the same observation. -/
def sampleStart (o : CacheFileObservation) : StoreState :=
  ⟨sampleBucket, [⟨[], [o], .create⟩, ⟨[], [o], .create⟩]⟩

/-- The first merge up to its last deletion. -/
def firstMerge : List (Nat × MergeLabel) :=
  [(0, .create true), (0, .list [sampleShard 0, sampleShard 1]), (0, .read true), (0, .read true),
    (0, .merge), (0, .check), (0, .write true), (0, .delete true)]

/-- The second merge reads one shard that the first has written and one that it then deletes. -/
def secondMerge : List (Nat × MergeLabel) :=
  [(1, .create true), (1, .list [sampleShard 1, sampleShard 2]), (1, .read true), (1, .read true),
    (1, .merge), (0, .delete true), (1, .check), (1, .write true), (1, .delete true),
    (1, .delete true)]

theorem lookup_sampleBucket {id : String} {bytes : Bytes}
    (h : sampleBucket.files.lookup id = some bytes) :
    ∃ i < 2, id = sampleShard i ∧ bytes = [.ofNat i] := by
  have hmem := AList.mem_lookup_iff.1 h
  rw [show sampleBucket.files.entries = [⟨sampleShard 1, [1]⟩, ⟨sampleShard 0, [0]⟩] by
    decide +kernel] at hmem
  rcases List.mem_cons.1 hmem with heq | hmem
  · cases heq
    exact ⟨1, by decide, rfl, rfl⟩
  · cases List.mem_singleton.1 hmem
    exact ⟨0, by decide, rfl, rfl⟩

theorem agrees_of_forall {s : Snapshot} {d : Digest}
    (h : ∀ p ∈ s.entries.entries, p.2.outputsHash = d) : Agrees (fun _ => d) s :=
  fun key e he => h (key, e) (BTreeMap.mem_entries_iff.2 he)

theorem sound_samples : Sound sampleCodec sampleBucket sampleWritten fun _ => Digest.zero := by
  have hdecode : ∀ i < 2, sampleCodec.decodeSnapshot [.ofNat i] = samples[i]? := by decide +kernel
  have hshard : ∀ i < 2, ∀ c ∈ samples, sampleCodec.shardId c = sampleShard i →
      samples[i]? = some c := by decide +kernel
  have hagree : ∀ c ∈ samples, ∀ p ∈ c.entries.entries, p.2.outputsHash = Digest.zero := by
    decide +kernel
  have hinj : ∀ c ∈ samples, ∀ d ∈ samples, sampleCodec.shardId c = sampleCodec.shardId d → c = d := by
    decide +kernel
  have hstored : ∀ c ∈ samples, sampleCodec.decodeSnapshot (sampleCodec.encode c) = some c := by
    decide +kernel
  refine ⟨?_, ?_, fun c hc d hd => hinj c hc d hd, ?_, ?_, nofun⟩
  · intro id hid
    obtain ⟨bytes, hlookup⟩ := Option.isSome_iff_exists.1 hid
    obtain ⟨i, -, rfl, -⟩ := lookup_sampleBucket hlookup
    exact ⟨_, rfl⟩
  · intro id bytes s c hlookup hs hc hid
    obtain ⟨i, hi, rfl, rfl⟩ := lookup_sampleBucket hlookup
    rw [hdecode i hi, hshard i hi c hc hid] at hs
    exact (Option.some.inj hs).symm
  · intro c bytes hc hbytes
    obtain rfl := Option.some.inj hbytes
    exact hstored c hc
  · intro id bytes s hlookup hs
    obtain ⟨i, hi, rfl, rfl⟩ := lookup_sampleBucket hlookup
    rw [hdecode i hi] at hs
    exact agrees_of_forall (hagree s (List.mem_of_getElem? hs))

theorem init_sampleStart (o : CacheFileObservation) :
    (storeSystem sampleCodec "20260807-00" sampleBucket).init (sampleStart o) :=
  ⟨rfl, List.forall_mem_cons.2 ⟨rfl, List.forall_mem_cons.2 ⟨rfl, nofun⟩⟩⟩

/-- The key stays when the first merge brings a newer observation and replaces both shards. -/
theorem merge_keeps_keys_sample : ∃ state',
    (storeSystem sampleCodec "20260807-00" sampleBucket).run (Admitted sampleWritten fun _ =>
      Digest.zero) (sampleStart (observedAt 9)) (firstMerge ++ [(0, .delete true)]) = some state' ∧
    state'.bucket.files.keys = [sampleShard 3] ∧ state'.bucket.hasKey sampleCodec sampleKey := by
  have hrun : (((storeSystem sampleCodec "20260807-00" sampleBucket).run (Admitted sampleWritten
      fun _ => Digest.zero) (sampleStart (observedAt 9)) (firstMerge ++ [(0, .delete true)])).map
      (·.bucket.files.keys)) = some [sampleShard 3] := by decide +kernel
  obtain ⟨state', hstate', hkeys⟩ := Option.map_eq_some_iff.1 hrun
  refine ⟨state', hstate', hkeys, ?_⟩
  have hkept := merge_keeps_keys sound_samples (.init (init_sampleStart (observedAt 9)))
    (System.reach_of_run hstate')
  exact hkept.1 sampleKey (by decide +kernel)

/-- Both merges bring an observation that is older than the eight of the second shard. Each of them
replaces a shard by one that is equal to the other shard, which the second merge restores and then
deletes as merged. -/
theorem merge_loses_key : ∃ state',
    Reach ((storeSystem sampleCodec "20260807-00" sampleBucket).resume (sampleStart (observedAt 0)))
      (Updates sampleWritten fun _ => Digest.zero) state' ∧
    (storeSystem sampleCodec "20260807-00" sampleBucket).init (sampleStart (observedAt 0)) ∧
    Sound sampleCodec sampleBucket sampleWritten (fun _ => Digest.zero) ∧
    (sampleStart (observedAt 0)).bucket.hasKey sampleCodec sampleKey = true ∧
    state'.bucket.hasKey sampleCodec sampleKey = false := by
  have hrun : (((storeSystem sampleCodec "20260807-00" sampleBucket).run (Updates sampleWritten
      fun _ => Digest.zero) (sampleStart (observedAt 0)) (firstMerge ++ secondMerge)).map
      (·.bucket.hasKey sampleCodec sampleKey)) = some false := by decide +kernel
  obtain ⟨state', hstate', hkey⟩ := Option.map_eq_some_iff.1 hrun
  exact ⟨state', System.reach_of_run hstate', init_sampleStart _, sound_samples,
    by decide +kernel, hkey⟩

end Samples

end Luchta.Proof.Store
