import Luchta.Impl.SnapshotStore
import Luchta.Proof.Store.Rank

/-!
# Concurrent merges

What any number of merges, interleaved in any way, keep of a bucket:

* `step_cases`: a step writes one shard, deletes one shard, or leaves the bucket alone.
* `StoreInv`: every shard is covered by one that is there and that nobody is about to delete.
* `Covered.step`, `StoreInv.step`: what is covered stays covered.
-/

namespace Luchta.Proof.Store

open Luchta.Framework Luchta.Impl

/-! ## Steps -/

/-- The shards a merge is about to delete. -/
def pending (p : MergePhase) : List String :=
  match p with
  | .delete _ _ todo => todo
  | _ => []

/-- The shard a merge has written. -/
def upload (p : MergePhase) : Option SnapshotUpload :=
  match p with
  | .delete upload _ _ => some upload
  | .done outcome => outcome.newSnapshotUpload
  | _ => none

section Steps

variable {codec : SnapshotCodec} {shardKey : String} {b b' : Bucket} {m : Merge} {l : MergeLabel}
  {p : MergePhase}

/-- The step in which a merge writes its shard. -/
def Writes (codec : SnapshotCodec) (b : Bucket) (m : Merge) (b' : Bucket) (p : MergePhase) : Prop :=
  ∃ visible ids consolidated bytes, m.phase = .write visible ids consolidated ∧
    codec.compress (codec.encode consolidated) = some bytes ∧
    b' = { b with files := b.files.insert (codec.shardId consolidated) bytes } ∧
    p = .delete ⟨codec.shardId consolidated, bytes⟩ (subsumedShardIds visible ids)
      (subsumedShardIds visible ids)

/-- The step in which a merge deletes a shard, or fails to. -/
def Deletes (b : Bucket) (m : Merge) (b' : Bucket) (p : MergePhase) : Prop :=
  ∃ upload subsumed id todo, m.phase = .delete upload subsumed (id :: todo) ∧
    (b' = b ∨ b' = { b with files := b.files.erase id }) ∧ p = .delete upload subsumed todo

theorem step_cases (h : m.step codec shardKey b l = some (b', p)) :
    Writes codec b m b' p ∨ Deletes b m b' p ∨
      b' = b ∧ pending m.phase = [] ∧ pending p = [] := by
  unfold Merge.step at h
  split at h
  · rename_i hphase
    right; right
    split at h
    · cases h
      exact ⟨rfl, by rw [hphase]; rfl, rfl⟩
    · split at h
      · cases h
        exact ⟨rfl, by rw [hphase]; rfl, rfl⟩
      · cases h
        exact ⟨rfl, by rw [hphase]; rfl, rfl⟩
  · rename_i hphase
    cases h
    exact .inr (.inr ⟨rfl, by rw [hphase]; rfl, rfl⟩)
  · rename_i hphase
    cases h
    exact .inr (.inr ⟨rfl, by rw [hphase]; rfl, rfl⟩)
  · rename_i hphase
    right; right
    dsimp only at h
    split at h
    · cases h
      exact ⟨rfl, by rw [hphase]; rfl, rfl⟩
    · cases h
      exact ⟨rfl, by rw [hphase]; rfl, rfl⟩
  · rename_i hphase
    right; right
    split at h
    · cases h
      exact ⟨rfl, by rw [hphase]; rfl, rfl⟩
    · cases h
      exact ⟨rfl, by rw [hphase]; rfl, rfl⟩
  · rename_i visible ids consolidated ok hphase
    split at h
    · cases h
      exact .inr (.inr ⟨rfl, by rw [hphase]; rfl, rfl⟩)
    · rename_i bytes hbytes
      split at h
      · cases h
        exact .inl ⟨visible, ids, consolidated, bytes, hphase, hbytes, rfl, rfl⟩
      · cases h
        exact .inr (.inr ⟨rfl, by rw [hphase]; rfl, rfl⟩)
  · rename_i upload subsumed id todo ok hphase
    cases h
    refine .inr (.inl ⟨upload, subsumed, id, todo, hphase, ?_, rfl⟩)
    cases ok
    · exact .inl rfl
    · exact .inr rfl
  · rename_i hphase
    cases h
    exact .inr (.inr ⟨rfl, by rw [hphase]; rfl, rfl⟩)
  · contradiction

theorem state_step {s s' : StoreState} {l : Nat × MergeLabel}
    (h : s.step codec shardKey l = some s') :
    ∃ m p, s.merges[l.1]? = some m ∧ m.step codec shardKey s.bucket l.2 = some (s'.bucket, p) ∧
      s'.merges = s.merges.set l.1 { m with phase := p } := by
  unfold StoreState.step at h
  cases hm : s.merges[l.1]? with
  | none =>
    rw [hm] at h
    contradiction
  | some m =>
    rw [hm] at h
    cases hstep : m.step codec shardKey s.bucket l.2 with
    | none =>
      simp [hstep] at h
    | some r =>
      obtain ⟨b, p⟩ := r
      simp only [Option.bind_eq_bind, Option.bind_some, hstep, Option.pure_def,
        Option.some.injEq] at h
      subst h
      exact ⟨m, p, rfl, hstep, rfl⟩

end Steps

/-! ## Names -/

theorem hexDigit_ne (n : Nat) : hexDigit n ≠ 'l' := by
  unfold hexDigit
  rw [List.getD_eq_getElem?_getD]
  by_cases hn : n < 16
  · have : ∀ m < 16, ("0123456789abcdef".toList[m]?).getD '0' ≠ 'l' := by decide
    exact this n hn
  · rw [List.getElem?_eq_none (by simpa using hn)]
    decide

/-- No hash is written like the id of the legacy file. -/
theorem toHex_ne_legacy (d : Digest) (shardKey : String) : toHex d ≠ legacyShardId shardKey := by
  intro h
  have hmem : 'l' ∈ (toHex d).toList := by
    rw [h, legacyShardId, String.toList_append]
    exact List.mem_append_left _ (by decide)
  rw [toHex, String.toList_ofList, List.mem_flatMap] at hmem
  obtain ⟨b, -, hb⟩ := hmem
  rcases List.mem_cons.1 hb with hb | hb
  · exact hexDigit_ne _ hb.symm
  · exact hexDigit_ne _ (List.mem_singleton.1 hb).symm

variable {codec : SnapshotCodec} {shardKey : String} {init : Bucket} {written : Set Snapshot}
  {out : String → Digest}

/-- The bucket the merges start from and the snapshots they may write: shard files are named by the
hash of their content, no two contents share a hash, what is written can be read again, and the
entries of a key have its outputs. -/
structure Sound (codec : SnapshotCodec) (init : Bucket) (written : Set Snapshot)
    (out : String → Digest) : Prop where
  hashes : ∀ {id}, (init.files.lookup id).isSome → ∃ d, id = toHex d
  named : ∀ {id bytes s c}, init.files.lookup id = some bytes →
    codec.decodeSnapshot bytes = some s → c ∈ written → codec.shardId c = id → s = c
  injective : Set.InjOn codec.shardId written
  stored : ∀ {c bytes}, c ∈ written → codec.compress (codec.encode c) = some bytes →
    codec.decodeSnapshot bytes = some c
  shards : ∀ {id bytes s}, init.files.lookup id = some bytes →
    codec.decodeSnapshot bytes = some s → Agrees out s
  legacy : ∀ {bytes s}, init.legacy = some bytes → codec.decodeSnapshot bytes = some s →
    Agrees out s

/-- The snapshot that a shard id stands for. -/
def Names (codec : SnapshotCodec) (init : Bucket) (written : Set Snapshot) (id : String)
    (s : Snapshot) : Prop :=
  (∃ bytes, init.files.lookup id = some bytes ∧ codec.decodeSnapshot bytes = some s) ∨
    s ∈ written ∧ codec.shardId s = id

theorem Names.unique (hsound : Sound codec init written out) {id : String} {s t : Snapshot}
    (hs : Names codec init written id s) (ht : Names codec init written id t) : s = t := by
  rcases hs with ⟨bytes, hlookup, hdecode⟩ | ⟨hs, hid⟩
  · rcases ht with ⟨bytes', hlookup', hdecode'⟩ | ⟨ht, hid'⟩
    · obtain rfl := Option.some.inj (hlookup.symm.trans hlookup')
      exact Option.some.inj (hdecode.symm.trans hdecode')
    · exact hsound.named hlookup hdecode ht hid'
  · rcases ht with ⟨bytes', hlookup', hdecode'⟩ | ⟨ht, hid'⟩
    · exact (hsound.named hlookup' hdecode' hs hid).symm
    · exact hsound.injective hs ht (hid.trans hid'.symm)

variable {state state' : StoreState}

/-! ## The invariant -/

/-- A shard that is at least `s` is there, and nobody is about to delete it. -/
def Covered (codec : SnapshotCodec) (state : StoreState) (s : Snapshot) : Prop :=
  ∃ id bytes t, state.bucket.files.lookup id = some bytes ∧ codec.decodeSnapshot bytes = some t ∧
    rank s ≤ rank t ∧ ∀ m ∈ state.merges, id ∉ pending m.phase

/-- What the shards of these ids contain is strictly less than `c`. -/
def Below (codec : SnapshotCodec) (shardKey : String) (init : Bucket) (written : Set Snapshot)
    (ids : List String) (c : Snapshot) : Prop :=
  ∀ id ∈ ids, id = legacyShardId shardKey ∨ ∃ r, Names codec init written id r ∧ rank r < rank c

/-- What a merge has read so far. -/
structure LoadInv (codec : SnapshotCodec) (shardKey : String) (init : Bucket)
    (written : Set Snapshot) (out : String → Digest) (loaded : MergedShards) : Prop where
  normal : NormalSnapshot loaded.merged
  agrees : Agrees out loaded.merged
  fresh : loaded.sawAny = false → loaded.merged = .new
  ids : ∀ id ∈ loaded.mergedShardIds, id = legacyShardId shardKey ∨
    ∃ r, Names codec init written id r ∧ rank r ≤ rank loaded.merged

def HasKeys (entries : List SnapshotEntry) (c : Snapshot) : Prop :=
  ∀ e ∈ entries, (c.entries.get? (inputKeyHex e.inputKey)).isSome

/-- What a merge of these entries knows of what it does next. -/
def PhaseInv (codec : SnapshotCodec) (shardKey : String) (init : Bucket) (written : Set Snapshot)
    (out : String → Digest) (covered : Snapshot → Prop) (entries : List SnapshotEntry) :
    MergePhase → Prop
  | .create | .list => True
  | .read _ todo loaded => LoadInv codec shardKey init written out loaded ∧
    ∀ shard ∈ todo, shard.source = .LegacyFile → shard.shardId = legacyShardId shardKey
  | .check _ ids c | .write _ ids c =>
    c ∈ written ∧ Agrees out c ∧ HasKeys entries c ∧ Below codec shardKey init written ids c
  | .delete upload _ todo => ∃ c ∈ written, codec.decodeSnapshot upload.shardBytes = some c ∧
    covered c ∧ HasKeys entries c ∧ Below codec shardKey init written todo c
  | .done outcome => ∀ upload, outcome.newSnapshotUpload = some upload →
    ∃ c, codec.decodeSnapshot upload.shardBytes = some c ∧ covered c ∧ HasKeys entries c

structure StoreInv (codec : SnapshotCodec) (shardKey : String) (init : Bucket)
    (written : Set Snapshot) (out : String → Digest) (state : StoreState) : Prop where
  legacy : state.bucket.legacy = init.legacy
  hashes : ∀ {id}, (state.bucket.files.lookup id).isSome → ∃ d, id = toHex d
  named : ∀ {id bytes s}, state.bucket.files.lookup id = some bytes →
    codec.decodeSnapshot bytes = some s → Names codec init written id s ∧ Agrees out s
  covered : ∀ {id bytes s}, state.bucket.files.lookup id = some bytes →
    codec.decodeSnapshot bytes = some s → Covered codec state s
  merges : ∀ m ∈ state.merges,
    PhaseInv codec shardKey init written out (Covered codec state) m.entries m.phase

/-- The updates of a merge that is about to merge them, and the snapshot it merges them into. -/
def merging (state : StoreState) (l : Nat × MergeLabel) : Option (Merge × Snapshot) :=
  match state.merges[l.1]? with
  | none => none
  | some m =>
    match m.phase, l.2 with
    | .read _ [] loaded, .merge => some (m, loaded.snapshot.getD .new)
    | _, _ => none

/-- The updates of this step have the outputs of their keys, and their result may be written. -/
def Updates (written : Set Snapshot) (out : String → Digest) (state : StoreState)
    (l : Nat × MergeLabel) : Prop :=
  ∀ r ∈ merging state l, (∀ e ∈ r.1.entries, e.outputsHash = out (inputKeyHex e.inputKey)) ∧
    (mergeSnapshotUpdates r.2 r.1.entries r.1.cacheFileObservations).1 ∈ written

/-- In this step a merge has nothing new, and an observation that is too old to be kept. -/
def DropsOnly (state : StoreState) (l : Nat × MergeLabel) : Prop :=
  ∃ r ∈ merging state l, OnlyDropped r.2 r.1.entries r.1.cacheFileObservations

instance [DecidablePred (· ∈ written)] (l : Nat × MergeLabel) :
    Decidable (Updates written out state l) := inferInstanceAs (Decidable (∀ r ∈ _, _ ∧ _))

instance (l : Nat × MergeLabel) : Decidable (DropsOnly state l) :=
  inferInstanceAs (Decidable (∃ r ∈ _, _))

theorem PhaseInv.mono {cov cov' : Snapshot → Prop} (hcov : ∀ s, cov s → cov' s)
    {entries : List SnapshotEntry} {p : MergePhase}
    (h : PhaseInv codec shardKey init written out cov entries p) :
    PhaseInv codec shardKey init written out cov' entries p := by
  cases p with
  | delete upload subsumed todo =>
    obtain ⟨c, hc, hdecode, hcovered, hrest⟩ := h
    exact ⟨c, hc, hdecode, hcov c hcovered, hrest⟩
  | done outcome =>
    intro upload hupload
    obtain ⟨c, hdecode, hcovered, hkeys⟩ := h upload hupload
    exact ⟨c, hdecode, hcov c hcovered, hkeys⟩
  | _ => exact h

theorem Covered.trans {s t : Snapshot} (h : Covered codec state t) (hle : rank s ≤ rank t) :
    Covered codec state s := by
  obtain ⟨id, bytes, u, hlookup, hdecode, hrank, hpending⟩ := h
  exact ⟨id, bytes, u, hlookup, hdecode, hle.trans hrank, hpending⟩

/-! ## Loading -/

theorem LoadInv.load (hinv : StoreInv codec shardKey init written out state)
    (hlegacy : ∀ {bytes s}, init.legacy = some bytes → codec.decodeSnapshot bytes = some s →
      Agrees out s)
    {loaded : MergedShards} (h : LoadInv codec shardKey init written out loaded)
    {shard : SnapshotShard} (hshard : shard.source = .LegacyFile →
      shard.shardId = legacyShardId shardKey) (ok : Bool) :
    LoadInv codec shardKey init written out
      (loaded.load codec shard (if ok then state.bucket.readShard shard else none)) := by
  unfold MergedShards.load
  split
  · exact h
  · rename_i s hs
    obtain ⟨bytes, hbytes, hdecode⟩ := Option.bind_eq_some_iff.1 hs
    have hread : state.bucket.readShard shard = some bytes := by
      cases ok with
      | true => exact hbytes
      | false => contradiction
    -- what was read agrees with the others, and its id stands for it
    have hs : Agrees out s ∧ (shard.shardId = legacyShardId shardKey ∨
        Names codec init written shard.shardId s) := by
      unfold Bucket.readShard at hread
      cases hsource : shard.source with
      | LegacyFile =>
        rw [hsource] at hread
        exact ⟨hlegacy (hinv.legacy ▸ hread) hdecode, .inl (hshard hsource)⟩
      | ShardFile =>
        rw [hsource] at hread
        obtain ⟨hname, hagree⟩ := hinv.named hread hdecode
        exact ⟨hagree, .inr hname⟩
    obtain ⟨hagree, hname⟩ := hs
    obtain ⟨hnormal, hagrees, hle, hles⟩ := rank_mergeShardEntries h.normal h.agrees hagree
    refine ⟨hnormal, hagrees, nofun, fun id hid => ?_⟩
    rcases List.mem_cons.1 hid with rfl | hid
    · exact hname.imp_right fun hname => ⟨s, hname, hles⟩
    · exact (h.ids id hid).imp_right fun ⟨r, hr, hrank⟩ => ⟨r, hr, hrank.trans hle⟩

theorem LoadInv.snapshot {loaded : MergedShards}
    (h : LoadInv codec shardKey init written out loaded) :
    loaded.snapshot.getD .new = loaded.merged := by
  unfold MergedShards.snapshot
  split
  · rfl
  · rename_i hsaw
    exact (h.fresh (Bool.not_eq_true _ ▸ hsaw)).symm

theorem source_listSnapshotShards {b : Bucket} {names : List String} {shard : SnapshotShard}
    (h : shard ∈ b.listSnapshotShards shardKey names) (hsource : shard.source = .LegacyFile) :
    shard.shardId = legacyShardId shardKey := by
  rw [Bucket.listSnapshotShards, mem_sortBy, List.mem_append] at h
  rcases h with h | h
  · split at h
    · rw [List.mem_singleton.1 h]
    · contradiction
  · obtain ⟨name, -, rfl⟩ := List.mem_map.1 h
    contradiction

theorem mem_of_mem_subsumed {visible : List SnapshotShard} {ids : List String} {id : String}
    (h : id ∈ subsumedShardIds visible ids) : id ∈ ids := by
  rw [subsumedShardIds, List.mem_filterMap] at h
  obtain ⟨shard, hshard, hid⟩ := h
  rw [List.mem_filter, decide_eq_true_iff] at hshard
  unfold SnapshotShard.deletableShardId at hid
  split at hid
  · contradiction
  · exact Option.some.inj hid ▸ hshard.2

/-! ## Phases -/

/-- What a merge knows of itself stays true in every step but the one in which it writes. -/
theorem phaseInv_step (hsound : Sound codec init written out)
    (hinv : StoreInv codec shardKey init written out state) {l : Nat × MergeLabel} {m : Merge}
    (hm : state.merges[l.1]? = some m) (hupdates : Updates written out state l)
    (hdrops : ¬ DropsOnly state l) {b' : Bucket} {p : MergePhase}
    (h : m.step codec shardKey state.bucket l.2 = some (b', p)) :
    Writes codec state.bucket m b' p ∨
      PhaseInv codec shardKey init written out (Covered codec state) m.entries p := by
  have hphase := hinv.merges m (List.mem_of_getElem? hm)
  unfold Merge.step at h
  split at h
  · split at h
    · cases h
      exact .inr nofun
    · split at h
      · cases h
        exact .inr trivial
      · cases h
        exact .inr nofun
  · cases h
    exact .inr ⟨⟨normalSnapshot_new, nofun, fun _ => rfl, nofun⟩,
      fun shard => source_listSnapshotShards⟩
  · rename_i visible shard todo loaded ok hp hl
    cases h
    rw [hp] at hphase
    obtain ⟨hload, hsource⟩ := hphase
    refine .inr ⟨hload.load hinv hsound.legacy (hsource shard (.head _)) ok, fun s hs => ?_⟩
    exact hsource s (.tail _ hs)
  · rename_i visible loaded hp hl
    rw [hp] at hphase
    obtain ⟨hload, -⟩ := hphase
    have hmerging : merging state l = some (m, loaded.merged) := by
      unfold merging
      rw [hm]
      dsimp only
      rw [hp, hl]
      show some (m, loaded.snapshot.getD .new) = _
      rw [hload.snapshot]
    obtain ⟨hentries, hwritten⟩ := hupdates _ hmerging
    obtain ⟨-, hagrees, hcases⟩ := mergeSnapshotUpdates_spec hload.normal hload.agrees hentries
    dsimp only at h
    rw [hload.snapshot] at h
    split at h
    · rename_i hchanged
      cases h
      have hlt := (hcases hchanged).resolve_left fun honly => hdrops ⟨_, hmerging, honly⟩
      refine .inr ⟨hwritten, hagrees, isSome_mergeSnapshotUpdates hload.normal hload.agrees hentries,
        fun id hid => ?_⟩
      exact (hload.ids id hid).imp_right fun ⟨r, hr, hle⟩ => ⟨r, hr, hle.trans_lt hlt⟩
    · cases h
      exact .inr nofun
  · rename_i hp hl
    rw [hp] at hphase
    split at h
    · cases h
      exact .inr nofun
    · cases h
      exact .inr hphase
  · rename_i visible ids consolidated ok hp hl
    split at h
    · cases h
      exact .inr nofun
    · rename_i bytes hbytes
      split at h
      · cases h
        exact .inl ⟨visible, ids, consolidated, bytes, hp, hbytes, rfl, rfl⟩
      · cases h
        exact .inr nofun
  · rename_i hp hl
    cases h
    rw [hp] at hphase
    obtain ⟨c, hc, hdecode, hcovered, hkeys, hbelow⟩ := hphase
    exact .inr ⟨c, hc, hdecode, hcovered, hkeys, fun id hid => hbelow id (.tail _ hid)⟩
  · rename_i hp hl
    cases h
    rw [hp] at hphase
    obtain ⟨c, -, hdecode, hcovered, hkeys, -⟩ := hphase
    refine .inr fun upload hupload => ⟨c, ?_, hcovered, hkeys⟩
    exact Option.some.inj hupload ▸ hdecode
  · contradiction

/-! ## Covering -/

theorem forall_mem_set {merges : List Merge} {i : Nat} {m : Merge} {P : Merge → Prop} (hm : P m)
    (h : ∀ m ∈ merges, P m) : ∀ m' ∈ merges.set i m, P m' := by
  intro m' hm'
  rcases List.mem_or_eq_of_mem_set hm' with hm' | rfl
  · exact h m' hm'
  · exact hm

/-- A present shard is not in a list of shards that are less than `c`, unless it is less than `c`. -/
theorem rank_lt_of_below (hsound : Sound codec init written out)
    (hinv : StoreInv codec shardKey init written out state) {ids : List String} {c t : Snapshot}
    (hbelow : Below codec shardKey init written ids c) {id : String} {bytes : Bytes}
    (hlookup : state.bucket.files.lookup id = some bytes)
    (hdecode : codec.decodeSnapshot bytes = some t) (hid : id ∈ ids) : rank t < rank c := by
  rcases hbelow id hid with hlegacy | ⟨r, hr, hlt⟩
  · obtain ⟨d, hd⟩ := hinv.hashes (Option.isSome_iff_exists.2 ⟨bytes, hlookup⟩)
    exact (toHex_ne_legacy d shardKey (hd ▸ hlegacy)).elim
  · rw [(hinv.named hlookup hdecode).1.unique hsound hr]
    exact hlt

section Write

variable {m : Merge} {p : MergePhase} {i : Nat}

/-- Writing a shard covers it: by itself, or by the shard of a merge that is about to delete it. -/
theorem covered_written (hsound : Sound codec init written out)
    (hinv : StoreInv codec shardKey init written out state) (hm : m ∈ state.merges)
    {visible : List SnapshotShard} {ids : List String} {c : Snapshot} {bytes : Bytes}
    (hphase : m.phase = .write visible ids c)
    (hbytes : codec.compress (codec.encode c) = some bytes)
    (hfiles : state'.bucket.files = state.bucket.files.insert (codec.shardId c) bytes)
    (hmerges : state'.merges = state.merges.set i ⟨m.entries, m.cacheFileObservations,
      .delete ⟨codec.shardId c, bytes⟩ (subsumedShardIds visible ids)
        (subsumedShardIds visible ids)⟩) :
    Covered codec state' c := by
  have hinvm := hinv.merges m hm
  rw [hphase] at hinvm
  obtain ⟨hc, -, -, hbelow⟩ := hinvm
  have hname : Names codec init written (codec.shardId c) c := .inr ⟨hc, rfl⟩
  by_cases hpend : ∃ m' ∈ state.merges, codec.shardId c ∈ pending m'.phase
  · -- another merge has written something greater, which is covered
    obtain ⟨m', hm', hid⟩ := hpend
    have hinvm' := hinv.merges m' hm'
    cases hp' : m'.phase with
    | delete upload' subsumed' todo' =>
      rw [hp'] at hinvm' hid
      obtain ⟨c', -, -, hcov', -, hbelow'⟩ := hinvm'
      have hlt : rank c < rank c' := by
        rcases hbelow' _ hid with hlegacy | ⟨r, hr, hlt⟩
        · exact (toHex_ne_legacy _ shardKey hlegacy).elim
        · rwa [hname.unique hsound hr]
      obtain ⟨id, bytes', t, hlookup, hdecode, hle, hnot⟩ := hcov'
      have hne : id ≠ codec.shardId c := fun h => hnot m' hm' (by rw [hp']; exact h ▸ hid)
      refine ⟨id, bytes', t, ?_, hdecode, (hlt.trans_le hle).le, ?_⟩
      · rw [hfiles, HashMap.lookup_insert_if, if_neg hne, hlookup]
      · rw [hmerges]
        refine forall_mem_set (fun hmem => ?_) hnot
        have := rank_lt_of_below hsound hinv hbelow hlookup hdecode (mem_of_mem_subsumed hmem)
        exact lt_irrefl _ ((this.trans hlt).trans_le hle)
    | _ =>
      rw [hp'] at hid
      contradiction
  · -- nobody deletes it, nor does this merge, which deletes only what is less
    push Not at hpend
    refine ⟨codec.shardId c, bytes, c, ?_, hsound.stored hc hbytes, le_refl _, ?_⟩
    · rw [hfiles, HashMap.lookup_insert_if, if_pos rfl]
    · rw [hmerges]
      refine forall_mem_set (fun hmem => ?_) hpend
      rcases hbelow _ (mem_of_mem_subsumed hmem) with hlegacy | ⟨r, hr, hlt⟩
      · exact toHex_ne_legacy _ shardKey hlegacy
      · rw [hname.unique hsound hr] at hlt
        exact lt_irrefl _ hlt

end Write

/-- Every step keeps covered what is covered. -/
theorem Covered.step (hsound : Sound codec init written out)
    (hinv : StoreInv codec shardKey init written out state) {l : Nat × MergeLabel}
    (h : state.step codec shardKey l = some state') {s : Snapshot} (hs : Covered codec state s) :
    Covered codec state' s := by
  obtain ⟨m, p, hm, hstep, hmerges⟩ := state_step h
  have hmem := List.mem_of_getElem? hm
  obtain ⟨id, bytes, t, hlookup, hdecode, hle, hnot⟩ := hs
  rcases step_cases hstep with ⟨visible, ids, c, written', hphase, hbytes, hb, rfl⟩ |
    ⟨upload, subsumed, id', todo, hphase, hb, rfl⟩ | ⟨hb, -, hpend⟩
  · have hinvm := hinv.merges m hmem
    rw [hphase] at hinvm
    obtain ⟨hc, -, -, hbelow⟩ := hinvm
    by_cases hsub : id ∈ subsumedShardIds visible ids
    · -- what covered it is less than the new shard
      have hlt := rank_lt_of_below hsound hinv hbelow hlookup hdecode (mem_of_mem_subsumed hsub)
      refine Covered.trans ?_ (hle.trans hlt.le)
      exact covered_written hsound hinv hmem hphase hbytes (by rw [hb]) hmerges
    · by_cases hid : id = codec.shardId c
      · -- the same content is written again
        have htc : t = c := (hinv.named hlookup hdecode).1.unique hsound (.inr ⟨hc, hid.symm⟩)
        refine Covered.trans ?_ (htc ▸ hle)
        exact covered_written hsound hinv hmem hphase hbytes (by rw [hb]) hmerges
      · refine ⟨id, bytes, t, ?_, hdecode, hle, ?_⟩
        · rw [hb, HashMap.lookup_insert_if, if_neg hid, hlookup]
        · rw [hmerges]
          exact forall_mem_set hsub hnot
  · have hne : id ≠ id' := by
      rintro rfl
      exact hnot m hmem (by rw [hphase]; exact List.mem_cons_self)
    refine ⟨id, bytes, t, ?_, hdecode, hle, ?_⟩
    · rcases hb with hb | hb
      · rw [hb, hlookup]
      · rw [hb, AList.lookup_erase_ne hne, hlookup]
    · rw [hmerges]
      refine forall_mem_set (fun hmem' => ?_) hnot
      exact hnot m hmem (by rw [hphase]; exact List.mem_cons_of_mem _ hmem')
  · refine ⟨id, bytes, t, by rw [hb, hlookup], hdecode, hle, ?_⟩
    rw [hmerges]
    exact forall_mem_set (by rw [hpend]; exact List.not_mem_nil) hnot

/-! ## Files -/

/-- What a step finds in the bucket afterwards was there, or is the shard it has written. -/
theorem lookup_step {l : Nat × MergeLabel} (h : state.step codec shardKey l = some state')
    {id : String} {bytes : Bytes} (hlookup : state'.bucket.files.lookup id = some bytes) :
    state.bucket.files.lookup id = some bytes ∨
    ∃ m ∈ state.merges, ∃ visible ids c, m.phase = .write visible ids c ∧ id = codec.shardId c ∧
      codec.compress (codec.encode c) = some bytes := by
  obtain ⟨m, p, hm, hstep, -⟩ := state_step h
  rcases step_cases hstep with ⟨visible, ids, c, bytes', hphase, hbytes, hb, -⟩ |
    ⟨upload, subsumed, id', todo, -, hb, -⟩ | ⟨hb, -⟩
  · rw [hb, HashMap.lookup_insert_if] at hlookup
    split at hlookup
    · rename_i hid
      obtain rfl := Option.some.inj hlookup
      exact .inr ⟨m, List.mem_of_getElem? hm, visible, ids, c, hphase, hid, hbytes⟩
    · exact .inl hlookup
  · rcases hb with hb | hb
    · exact .inl (hb ▸ hlookup)
    · rw [hb] at hlookup
      by_cases hid : id = id'
      · rw [hid, AList.lookup_erase] at hlookup
        contradiction
      · rw [AList.lookup_erase_ne hid] at hlookup
        exact .inl hlookup
  · exact .inl (hb ▸ hlookup)

theorem legacy_step {l : Nat × MergeLabel} (h : state.step codec shardKey l = some state') :
    state'.bucket.legacy = state.bucket.legacy := by
  obtain ⟨m, p, hm, hstep, -⟩ := state_step h
  rcases step_cases hstep with ⟨_, _, _, _, _, _, hb, -⟩ | ⟨_, _, _, _, -, hb | hb, -⟩ | ⟨hb, -⟩
  all_goals rw [hb]

theorem StoreInv.step (hsound : Sound codec init written out)
    (hinv : StoreInv codec shardKey init written out state) {l : Nat × MergeLabel}
    (hupdates : Updates written out state l) (hdrops : ¬ DropsOnly state l)
    (h : state.step codec shardKey l = some state') :
    StoreInv codec shardKey init written out state' := by
  obtain ⟨m, p, hm, hstep, hmerges⟩ := state_step h
  have hmem := List.mem_of_getElem? hm
  have hwrite : ∀ {m visible ids c}, m ∈ state.merges → m.phase = .write visible ids c →
      c ∈ written ∧ Agrees out c := fun {m visible ids c} hm hp => by
    have hinvm := hinv.merges m hm
    rw [hp] at hinvm
    exact ⟨hinvm.1, hinvm.2.1⟩
  have hcov : ∀ s, Covered codec state s → Covered codec state' s := fun s =>
    Covered.step hsound hinv h
  refine ⟨(legacy_step h).trans hinv.legacy, ?_, ?_, ?_, ?_⟩
  · intro id hid
    obtain ⟨bytes, hlookup⟩ := Option.isSome_iff_exists.1 hid
    rcases lookup_step h hlookup with hlookup | ⟨_, _, _, _, c, _, hid, _⟩
    · exact hinv.hashes (Option.isSome_iff_exists.2 ⟨bytes, hlookup⟩)
    · exact ⟨_, hid⟩
  · intro id bytes s hlookup hdecode
    rcases lookup_step h hlookup with hlookup | ⟨m', hm', _, _, c, hp, hid, hbytes⟩
    · exact hinv.named hlookup hdecode
    · obtain ⟨hc, hagrees⟩ := hwrite hm' hp
      obtain rfl := Option.some.inj (hdecode.symm.trans (hsound.stored hc hbytes))
      exact ⟨.inr ⟨hc, hid.symm⟩, hagrees⟩
  · intro id bytes s hlookup hdecode
    rcases lookup_step h hlookup with hold | ⟨m', hm', visible, ids, c, hp, hid, hbytes⟩
    · exact hcov s (hinv.covered hold hdecode)
    · obtain ⟨hc, -⟩ := hwrite hm' hp
      obtain rfl := Option.some.inj (hdecode.symm.trans (hsound.stored hc hbytes))
      -- a shard that is new was written in this step
      rcases step_cases hstep with ⟨visible', ids', c', bytes', hphase, hbytes', hb, rfl⟩ |
        ⟨_, _, id', _, _, hb, _⟩ | ⟨hb, -⟩
      · rw [hb, HashMap.lookup_insert_if] at hlookup
        split at hlookup
        · obtain rfl := Option.some.inj hlookup
          obtain ⟨hc', -⟩ := hwrite hmem hphase
          obtain rfl := Option.some.inj (hdecode.symm.trans (hsound.stored hc' hbytes'))
          exact covered_written hsound hinv hmem hphase hbytes' (by rw [hb]) hmerges
        · exact hcov s (hinv.covered hlookup hdecode)
      · rcases hb with hb | hb
        · exact hcov s (hinv.covered (hb ▸ hlookup) hdecode)
        · rw [hb] at hlookup
          by_cases hid' : codec.shardId s = id'
          · rw [hid, hid', AList.lookup_erase] at hlookup
            contradiction
          · rw [hid, AList.lookup_erase_ne hid'] at hlookup
            exact hcov s (hinv.covered hlookup hdecode)
      · exact hcov s (hinv.covered (hb ▸ hlookup) hdecode)
  · rw [hmerges]
    refine forall_mem_set ?_ fun m' hm' => (hinv.merges m' hm').mono hcov
    rcases phaseInv_step hsound hinv hm hupdates hdrops hstep with
      ⟨visible, ids, c, bytes, hphase, hbytes, hb, rfl⟩ | hp
    · have hinvm := hinv.merges m hmem
      rw [hphase] at hinvm
      obtain ⟨hc, -, hkeys, hbelow⟩ := hinvm
      exact ⟨c, hc, hsound.stored hc hbytes,
        covered_written hsound hinv hmem hphase hbytes (by rw [hb]) hmerges, hkeys,
        fun id hid => hbelow id (mem_of_mem_subsumed hid)⟩
    · exact hp.mono hcov

theorem StoreInv.start (hsound : Sound codec init written out)
    (h : (storeSystem codec shardKey init).init state) :
    StoreInv codec shardKey init written out state := by
  obtain ⟨hbucket, hmerges⟩ := h
  refine ⟨congrArg Bucket.legacy hbucket, ?_, ?_, ?_, ?_⟩
  · rw [hbucket]
    exact hsound.hashes
  · rw [hbucket]
    exact fun hlookup hdecode => ⟨.inl ⟨_, hlookup, hdecode⟩, hsound.shards hlookup hdecode⟩
  · intro id bytes s hlookup hdecode
    refine ⟨id, bytes, s, hlookup, hdecode, le_refl _, fun m hm => ?_⟩
    rw [hmerges m hm]
    exact List.not_mem_nil
  · intro m hm
    rw [hmerges m hm]
    trivial

end Luchta.Proof.Store
