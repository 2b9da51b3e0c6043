import Luchta.Framework.Newest
import Luchta.Impl.Snapshot

/-!
# What merging snapshots keeps

Snapshots are compared by `rank`: which keys they have, what is known of each, and how new their
observations are.

* `rank_mergeShardEntries`: merging a shard gives an upper bound of both.
* `mergeSnapshotUpdates_spec`: updates that are reported as a change raise the rank, or they have
  nothing new and one of them was dropped for being older than eight others.
-/

namespace Luchta.Proof.Store

open Luchta.Framework Luchta.Impl

/-! ## Ages -/

theorem digestNat_injective : Function.Injective digestNat := by
  intro d e h
  have hlt : ∀ d : Digest, ∀ n ∈ d.toList.reverse.map UInt8.toNat, n < 256 := by
    intro d n hn
    obtain ⟨b, -, rfl⟩ := List.mem_map.1 hn
    exact b.toNat_lt
  have hlist := Nat.ofDigits_inj_of_len_eq (by decide) (by simp) (hlt d) (hlt e) h
  have hrev := List.map_injective_iff.2 (fun _ _ => UInt8.toNat_inj.1) hlist
  exact Vector.toList_inj.1 (List.reverse_injective hrev)

theorem digestNat_lt (d : Digest) : digestNat d < 256 ^ 32 := by
  have hlen : (d.toList.reverse.map UInt8.toNat).length = 32 := by simp
  rw [← hlen]
  refine Nat.ofDigits_lt_base_pow_length (by decide) fun n hn => ?_
  obtain ⟨b, -, rfl⟩ := List.mem_map.1 hn
  exact b.toNat_lt

theorem blobRank_injective : Function.Injective blobRank := by
  intro o o' h
  cases o with
  | none =>
    cases o' with
    | none => rfl
    | some d => exact absurd h (digestNat_lt d).ne'
  | some c =>
    cases o' with
    | none => exact absurd h (digestNat_lt c).ne
    | some d => rw [digestNat_injective h]

/-- What makes two observations of a scope the same one. -/
def identity (o : CacheFileObservation) : Digest × Option Digest :=
  (o.upstreamOutputsHash, o.stateBlobHash)

theorem identity_of_age (o o' : CacheFileObservation) (h : o.age = o'.age) :
    identity o = identity o' := by
  have h := congrArg (fun x => (ofLex (ofLex x).2)) h
  simp only [CacheFileObservation.age, ofLex_toLex, Prod.mk.injEq] at h
  exact Prod.ext (digestNat_injective h.1) (blobRank_injective h.2)

/-- Between observations of one identity, age is time. -/
theorem age_lt_iff {o o' : CacheFileObservation} (h : identity o = identity o') :
    o.age < o'.age ↔ o.cachedAtUnixMs < o'.cachedAtUnixMs := by
  obtain ⟨hup, hblob⟩ := Prod.mk.inj h
  rw [CacheFileObservation.age, CacheFileObservation.age, hup, hblob, Prod.Lex.toLex_lt_toLex,
    UInt64.lt_iff_toNat_lt]
  simp

theorem upsertObservation_eq (o : CacheFileObservation) (l : List CacheFileObservation) :
    upsertObservation o l = Newest.upsert identity CacheFileObservation.age o l := by
  induction l with
  | nil => rfl
  | cons e l ih =>
    rw [upsertObservation, Newest.upsert, ih]
    by_cases hid : identity e = identity o
    · have hfields := Prod.mk.inj hid
      rw [if_pos hfields, if_pos hid, if_congr (age_lt_iff hid) rfl rfl]
    · have hfields : ¬ (e.upstreamOutputsHash = o.upstreamOutputsHash ∧
          e.stateBlobHash = o.stateBlobHash) := fun h => hid (Prod.ext h.1 h.2)
      rw [if_neg hfields, if_neg hid]

theorem observeCandidates_eq (l : List CacheFileObservation) (o : CacheFileObservation) :
    observeCandidates l o =
      Newest.observe identity CacheFileObservation.age MAX_OBSERVATIONS_PER_SCOPE l o := by
  rw [observeCandidates, Newest.observe, upsertObservation_eq]
  rfl

/-! ## Ranks -/

abbrev Age := Nat ×ₗ Nat ×ₗ Nat

abbrev level (l : List CacheFileObservation) (x : Age) : Nat :=
  Newest.level identity CacheFileObservation.age MAX_OBSERVATIONS_PER_SCOPE l x

def entryRank (e : SnapshotEntry) : Bool × Bool := (e.durationTrusted, e.inlineMeta.isSome)

def entriesRank (s : Snapshot) (key : String) : WithBot (Bool × Bool) :=
  match s.entries.get? key with
  | some e => entryRank e
  | none => ⊥

/-- The observations of a scope, wherever a snapshot has them. -/
def scopeObservations (s : Snapshot) (scope : String) : List CacheFileObservation :=
  (s.cacheFiles.entries.flatMap Prod.snd).filter fun o => inputKeyHex o.scopeHash = scope

def candidates (s : Snapshot) (scope : String) : List CacheFileObservation :=
  (s.cacheFiles.get? scope).getD []

abbrev Rank := (String → WithBot (Bool × Bool)) × (String → Age → Nat)

/-- The keys with what is known of them, and how new the observations of each scope are. -/
def rank (s : Snapshot) : Rank := (entriesRank s, fun scope => level (scopeObservations s scope))

/-- Snapshots that merging produces: every scope has its own observations, in a normal list. -/
structure NormalSnapshot (s : Snapshot) : Prop where
  version : s.schemaVersion = SNAPSHOT_SCHEMA_VERSION
  normal : ∀ {key l}, s.cacheFiles.get? key = some l →
    Newest.Normal identity CacheFileObservation.age MAX_OBSERVATIONS_PER_SCOPE l
  scope : ∀ {key l}, s.cacheFiles.get? key = some l → ∀ o ∈ l, inputKeyHex o.scopeHash = key

variable {s t shard : Snapshot}

theorem normalSnapshot_new : NormalSnapshot .new := ⟨rfl, nofun, nofun⟩

theorem NormalSnapshot.normal_candidates (h : NormalSnapshot s) (scope : String) :
    Newest.Normal identity CacheFileObservation.age MAX_OBSERVATIONS_PER_SCOPE
      (candidates s scope) := by
  unfold candidates
  cases hc : s.cacheFiles.get? scope with
  | none => exact ⟨.nil, .nil, Nat.zero_le _⟩
  | some l => exact h.normal hc

theorem NormalSnapshot.mem_scopeObservations (h : NormalSnapshot s) (scope : String)
    (o : CacheFileObservation) : o ∈ scopeObservations s scope ↔ o ∈ candidates s scope := by
  unfold scopeObservations candidates
  rw [List.mem_filter, List.mem_flatMap, decide_eq_true_iff]
  constructor
  · rintro ⟨⟨⟨key, l⟩, hmem, ho⟩, rfl⟩
    have hget := BTreeMap.mem_entries_iff.1 hmem
    rw [h.scope hget o ho, hget]
    exact ho
  · intro ho
    cases hc : s.cacheFiles.get? scope with
    | none =>
      rw [hc] at ho
      contradiction
    | some l =>
      rw [hc] at ho
      exact ⟨⟨(scope, l), BTreeMap.mem_entries_iff.2 hc, ho⟩, h.scope hc o ho⟩

theorem NormalSnapshot.rank_snd (h : NormalSnapshot s) (scope : String) (x : Age) :
    (rank s).2 scope x = level (candidates s scope) x := by
  show level _ x = level _ x
  unfold level Newest.level
  rw [Newest.reaching_congr (h.mem_scopeObservations scope)]

/-! ## Merging observations -/

/-- A round changes the list of one scope. -/
theorem candidates_observation (s : Snapshot × Bool) (o : CacheFileObservation) (scope : String) :
    candidates (mergeCacheFileObservation s o).1 scope =
      if scope = inputKeyHex o.scopeHash then
        (observeCandidates (candidates s.1 (inputKeyHex o.scopeHash)) o).1
      else candidates s.1 scope := by
  unfold mergeCacheFileObservation candidates
  dsimp only
  rw [BTreeMap.get?_insert]
  split <;> rfl

theorem normal_observation {s : Snapshot × Bool} (h : NormalSnapshot s.1)
    (o : CacheFileObservation) : NormalSnapshot (mergeCacheFileObservation s o).1 := by
  unfold mergeCacheFileObservation
  refine ⟨h.version, fun {key l} hl => ?_, fun {key l} hl p hp => ?_⟩
  · dsimp only at hl
    rw [BTreeMap.get?_insert] at hl
    split at hl
    · obtain rfl := Option.some.inj hl
      rw [observeCandidates_eq]
      exact Newest.normal_observe identity_of_age (h.normal_candidates _).idents
    · exact h.normal hl
  · dsimp only at hl
    rw [BTreeMap.get?_insert] at hl
    split at hl
    · rename_i hkey
      obtain rfl := Option.some.inj hl
      subst hkey
      -- an observation of the new list is the new one or was there before
      rw [observeCandidates_eq] at hp
      rcases Newest.mem_observe hp with rfl | hp
      · rfl
      · cases hc : s.1.cacheFiles.get? (inputKeyHex o.scopeHash) with
        | none =>
          rw [hc] at hp
          contradiction
        | some m =>
          rw [hc] at hp
          exact h.scope hc p hp
    · exact h.scope hl p hp

/-- After all rounds, each scope is as new as what it had and what it was shown. -/
theorem level_observations (os : List CacheFileObservation) {s : Snapshot × Bool}
    (h : NormalSnapshot s.1) :
    NormalSnapshot (os.foldl mergeCacheFileObservation s).1 ∧
    (os.foldl mergeCacheFileObservation s).1.entries = s.1.entries ∧
    ∀ scope x, level (candidates s.1 scope ++
        os.filter fun o => inputKeyHex o.scopeHash = scope) x ≤
      level (candidates (os.foldl mergeCacheFileObservation s).1 scope) x := by
  induction os generalizing s with
  | nil => exact ⟨h, rfl, fun scope x => by simp⟩
  | cons o os ih =>
    obtain ⟨hnormal, hentries, hlevel⟩ := ih (normal_observation h o)
    refine ⟨hnormal, hentries, fun scope x => le_trans ?_ (hlevel scope x)⟩
    rw [candidates_observation]
    by_cases hscope : inputKeyHex o.scopeHash = scope
    · subst hscope
      rw [List.filter_cons_of_pos (by simp), if_pos rfl, observeCandidates_eq]
      exact Newest.level_observe identity_of_age (h.normal_candidates _).idents _ x
    · rw [List.filter_cons_of_neg (by simpa using hscope), if_neg (Ne.symm hscope)]

theorem level_mono {l r : List CacheFileObservation} (h : ∀ o ∈ l, o ∈ r) (x : Age) :
    level l x ≤ level r x :=
  min_le_min_left _ (Finset.card_le_card (Newest.reaching_mono h))

theorem rank_le_observations (os : List CacheFileObservation) {s : Snapshot × Bool}
    (h : NormalSnapshot s.1) : rank s.1 ≤ rank (os.foldl mergeCacheFileObservation s).1 := by
  obtain ⟨hnormal, hentries, hlevel⟩ := level_observations os h
  refine ⟨fun key => ?_, fun scope x => ?_⟩
  · show entriesRank _ _ ≤ entriesRank _ _
    rw [entriesRank, entriesRank, hentries]
  · rw [h.rank_snd, hnormal.rank_snd]
    exact (level_mono (fun o => List.mem_append_left _) x).trans (hlevel scope x)

/-- An observation that is not newer than the one it would replace. -/
def Stale (s : Snapshot) (o : CacheFileObservation) : Prop :=
  ∃ p ∈ candidates s (inputKeyHex o.scopeHash), identity p = identity o ∧ o.age ≤ p.age

/-- An observation that is older than all it would stand beside, with no place left. -/
def Dropped (s : Snapshot) (o : CacheFileObservation) : Prop :=
  identity o ∉ (candidates s (inputKeyHex o.scopeHash)).map identity ∧
    (candidates s (inputKeyHex o.scopeHash)).length = MAX_OBSERVATIONS_PER_SCOPE ∧
    ∀ p ∈ candidates s (inputKeyHex o.scopeHash), o.age < p.age

instance (s : Snapshot) : DecidablePred (Stale s) := fun _ =>
  inferInstanceAs (Decidable (∃ _ ∈ _, _))

instance (s : Snapshot) : DecidablePred (Dropped s) := fun _ => inferInstanceAs (Decidable (_ ∧ _))

theorem insert_candidates {s : Snapshot} {key : String} (h : candidates s key ≠ []) :
    { s with cacheFiles := s.cacheFiles.insert key (candidates s key) } = s := by
  have hget : s.cacheFiles.get? key = some (candidates s key) := by
    unfold candidates at h ⊢
    cases hc : s.cacheFiles.get? key with
    | none =>
      rw [hc] at h
      exact absurd rfl h
    | some l => rfl
  rw [BTreeMap.insert_of_get? hget]

/-- A round changes nothing, or drops its observation and says it changed something, or changes
something. -/
theorem observation_cases {s : Snapshot × Bool} (h : NormalSnapshot s.1)
    (o : CacheFileObservation) :
    (Stale s.1 o ∧ mergeCacheFileObservation s o = s) ∨
    ((mergeCacheFileObservation s o).1 = s.1 ∧ Dropped s.1 o) ∨
    rank s.1 < rank (mergeCacheFileObservation s o).1 := by
  obtain ⟨s, changed⟩ := s
  have hcases := Newest.observe_cases (a := o) identity_of_age
    (h.normal_candidates (inputKeyHex o.scopeHash))
  rw [← observeCandidates_eq] at hcases
  -- the list of an observation that changes nothing is not empty
  have hne : ∀ b, observeCandidates (candidates s (inputKeyHex o.scopeHash)) o =
      (candidates s (inputKeyHex o.scopeHash), b) → candidates s (inputKeyHex o.scopeHash) ≠ [] := by
    intro b hobs hnil
    rw [hnil] at hobs
    exact List.cons_ne_nil _ _ (congrArg Prod.fst hobs)
  have hsame : ∀ b, observeCandidates (candidates s (inputKeyHex o.scopeHash)) o =
      (candidates s (inputKeyHex o.scopeHash), b) →
      mergeCacheFileObservation (s, changed) o = (s, changed || b) := by
    intro b hobs
    have hmerge : mergeCacheFileObservation (s, changed) o =
        (⟨s.schemaVersion, s.entries, s.cacheFiles.insert (inputKeyHex o.scopeHash)
          (candidates s (inputKeyHex o.scopeHash))⟩, changed || b) := by
      unfold mergeCacheFileObservation
      dsimp only
      rw [← candidates, hobs]
    rw [hmerge]
    exact congrArg (·, changed || b) (insert_candidates (hne b hobs))
  rcases hcases with ⟨hstale, hobs⟩ | ⟨hobs, hdrop⟩ | ⟨x, hx⟩
  · exact .inl ⟨hstale, by rw [hsame false hobs, Bool.or_false]⟩
  · exact .inr (.inl ⟨by rw [hsame true hobs], hdrop⟩)
  · refine .inr (.inr (lt_of_le_not_ge (rank_le_observations [o] h) fun hle => ?_))
    have hlevel := hle.2 (inputKeyHex o.scopeHash) x
    rw [(normal_observation h o).rank_snd, h.rank_snd, candidates_observation, if_pos rfl] at hlevel
    exact absurd hlevel (not_le.2 hx)

/-! ## Merging entries -/

/-- The outputs of every entry are those its key stands for. -/
def Agrees (out : String → Digest) (s : Snapshot) : Prop :=
  ∀ key e, s.entries.get? key = some e → e.outputsHash = out key

variable {out : String → Digest}

theorem entryRank_enrich (e f : SnapshotEntry) :
    entryRank (enrichSameOutputEntry e f).1 = entryRank e ⊔ entryRank f := by
  unfold enrichSameOutputEntry entryRank
  cases he : e.durationTrusted <;> cases hf : f.durationTrusted <;> cases hei : e.inlineMeta <;>
    cases hfi : f.inlineMeta <;> simp_all

theorem outputsHash_enrich {e f : SnapshotEntry} (h : e.outputsHash = f.outputsHash) :
    (enrichSameOutputEntry e f).1.outputsHash = e.outputsHash := by
  unfold enrichSameOutputEntry
  split
  · exact h.symm
  · split <;> rfl

theorem enrich_cases (e f : SnapshotEntry) : enrichSameOutputEntry e f = (e, false) ∨
    entryRank e < entryRank (enrichSameOutputEntry e f).1 := by
  rw [entryRank_enrich]
  unfold enrichSameOutputEntry entryRank
  cases he : e.durationTrusted <;> cases hf : f.durationTrusted <;> cases hei : e.inlineMeta <;>
    cases hfi : f.inlineMeta <;> simp [Prod.lt_iff]

theorem entriesRank_insert (s : Snapshot) (key k : String) (e : SnapshotEntry) :
    entriesRank { s with entries := s.entries.insert key e } k =
      if k = key then (entryRank e : WithBot (Bool × Bool)) else entriesRank s k := by
  unfold entriesRank
  dsimp only
  rw [BTreeMap.get?_insert]
  by_cases hk : k = key
  · rw [if_pos hk, if_pos hk]
  · rw [if_neg hk, if_neg hk]

/-- Entries for one key with the same outputs: the rank rises by what the new one knows. -/
theorem entriesRank_mergeShardEntry {s : Snapshot} (hs : Agrees out s)
    {e : String × SnapshotEntry} (he : e.2.outputsHash = out e.1) :
    Agrees out (mergeShardEntry s e) ∧ (mergeShardEntry s e).cacheFiles = s.cacheFiles ∧
    (mergeShardEntry s e).schemaVersion = s.schemaVersion ∧
    entriesRank s ≤ entriesRank (mergeShardEntry s e) ∧
    (entryRank e.2 : WithBot (Bool × Bool)) ≤ entriesRank (mergeShardEntry s e) e.1 := by
  unfold mergeShardEntry
  cases hget : s.entries.get? e.1 with
  | none =>
    refine ⟨fun key f hf => ?_, rfl, rfl, fun key => ?_, ?_⟩
    · dsimp only at hf
      rw [BTreeMap.get?_insert] at hf
      split at hf
      · rename_i hkey
        obtain rfl := Option.some.inj hf
        rw [hkey, he]
      · exact hs key f hf
    · rw [entriesRank_insert]
      split
      · rename_i hkey
        rw [hkey, entriesRank, hget]
        exact bot_le
      · exact le_refl _
    · rw [entriesRank_insert, if_pos rfl]
  | some existing =>
    have hsame := hs _ _ hget
    rw [← he] at hsame
    dsimp only
    rw [if_pos hsame]
    refine ⟨fun key f hf => ?_, rfl, rfl, fun key => ?_, ?_⟩
    · dsimp only at hf
      rw [BTreeMap.get?_insert] at hf
      split at hf
      · rename_i hkey
        obtain rfl := Option.some.inj hf
        rw [outputsHash_enrich hsame, hkey, hsame, he]
      · exact hs key f hf
    · rw [entriesRank_insert]
      split
      · rename_i hkey
        rw [hkey, entriesRank, hget, entryRank_enrich]
        exact WithBot.coe_le_coe.2 le_sup_left
      · exact le_refl _
    · rw [entriesRank_insert, if_pos rfl, entryRank_enrich]
      exact WithBot.coe_le_coe.2 le_sup_right

theorem entriesRank_foldl (es : List (String × SnapshotEntry)) {s : Snapshot} (hs : Agrees out s)
    (hes : ∀ e ∈ es, e.2.outputsHash = out e.1) :
    Agrees out (es.foldl mergeShardEntry s) ∧
    (es.foldl mergeShardEntry s).cacheFiles = s.cacheFiles ∧
    (es.foldl mergeShardEntry s).schemaVersion = s.schemaVersion ∧
    entriesRank s ≤ entriesRank (es.foldl mergeShardEntry s) ∧
    ∀ e ∈ es, (entryRank e.2 : WithBot (Bool × Bool)) ≤
      entriesRank (es.foldl mergeShardEntry s) e.1 := by
  induction es generalizing s with
  | nil => exact ⟨hs, rfl, rfl, le_refl _, nofun⟩
  | cons e es ih =>
    obtain ⟨hagree, hfiles, hversion, hle, hnew⟩ :=
      entriesRank_mergeShardEntry hs (hes e List.mem_cons_self)
    obtain ⟨hagree', hfiles', hversion', hle', hnew'⟩ :=
      ih hagree fun e he => hes e (List.mem_cons_of_mem _ he)
    refine ⟨hagree', hfiles'.trans hfiles, hversion'.trans hversion, hle.trans hle',
      fun f hf => ?_⟩
    rcases List.mem_cons.1 hf with rfl | hf
    · exact hnew.trans (hle' f.1)
    · exact hnew' f hf

/-! ## Merging shards -/

/-- A merged shard is an upper bound of what it was merged from. -/
theorem rank_mergeShardEntries (hs : NormalSnapshot s) (hagree : Agrees out s)
    (hshard : Agrees out shard) :
    NormalSnapshot (mergeShardEntries s shard) ∧ Agrees out (mergeShardEntries s shard) ∧
      rank s ≤ rank (mergeShardEntries s shard) ∧
      rank shard ≤ rank (mergeShardEntries s shard) := by
  obtain ⟨hagree', hfiles, hversion, hle, hnew⟩ := entriesRank_foldl shard.entries.entries hagree
    fun e he => hshard e.1 e.2 (BTreeMap.mem_entries_iff.1 he)
  have hnormal : NormalSnapshot (shard.entries.entries.foldl mergeShardEntry s) :=
    ⟨hversion.trans hs.version, fun hl => hs.normal (hfiles ▸ hl), fun hl => hs.scope (hfiles ▸ hl)⟩
  have hcand : ∀ scope, candidates (shard.entries.entries.foldl mergeShardEntry s) scope =
      candidates s scope := fun scope => by
    unfold candidates
    rw [hfiles]
  obtain ⟨hnormal', hentries, hlevel⟩ := level_observations
    (shard.cacheFiles.entries.flatMap Prod.snd)
    (s := (shard.entries.entries.foldl mergeShardEntry s, false)) hnormal
  have hrank : entriesRank (mergeShardEntries s shard) =
      entriesRank (shard.entries.entries.foldl mergeShardEntry s) := by
    funext key
    unfold entriesRank mergeShardEntries mergeCacheFileObservations
    rw [hentries]
  refine ⟨hnormal', ?_, ⟨?_, fun scope x => ?_⟩, fun key => ?_, fun scope x => ?_⟩
  · intro key e he
    exact hagree' key e (hentries ▸ he)
  · show entriesRank s ≤ entriesRank (mergeShardEntries s shard)
    rw [hrank]
    exact hle
  · rw [hs.rank_snd, hnormal'.rank_snd (s := mergeShardEntries s shard), ← hcand]
    exact (level_mono (fun o => List.mem_append_left _) x).trans (hlevel scope x)
  · show entriesRank shard key ≤ entriesRank (mergeShardEntries s shard) key
    rw [hrank]
    cases hget : shard.entries.get? key with
    | none =>
      rw [entriesRank, hget]
      exact bot_le
    | some e =>
      have := hnew (key, e) (BTreeMap.mem_entries_iff.2 hget)
      rw [entriesRank, hget]
      exact this
  · rw [hnormal'.rank_snd (s := mergeShardEntries s shard)]
    exact (level_mono (fun o => List.mem_append_right _) x).trans (hlevel scope x)

/-! ## Merging updates -/

theorem rank_of_entriesRank_lt {s t : Snapshot} (hfiles : t.cacheFiles = s.cacheFiles)
    (h : entriesRank s < entriesRank t) : rank s < rank t := by
  have hsnd : (rank t).2 = (rank s).2 := by
    show (fun scope => level (scopeObservations t scope)) = _
    unfold scopeObservations
    rw [hfiles]
    rfl
  exact Prod.lt_iff.2 (.inl ⟨h, hsnd.ge⟩)

/-- As much is known of the key of the entry as the entry says. -/
def Known (s : Snapshot) (e : SnapshotEntry) : Prop :=
  (entryRank e : WithBot (Bool × Bool)) ≤ entriesRank s (inputKeyHex e.inputKey)

instance (s : Snapshot) : DecidablePred (Known s) := fun _ => inferInstanceAs (Decidable (_ ≤ _))

/-- An entry changes nothing and says so, or it raises the rank. -/
theorem snapshotEntry_cases {s : Snapshot × MergeChanges} (hs : NormalSnapshot s.1)
    (hagree : Agrees out s.1) {e : SnapshotEntry} (he : e.outputsHash = out (inputKeyHex e.inputKey)) :
    NormalSnapshot (mergeSnapshotEntry s e).1 ∧ Agrees out (mergeSnapshotEntry s e).1 ∧
    (Known s.1 e ∧ mergeSnapshotEntry s e = s ∨ rank s.1 < rank (mergeSnapshotEntry s e).1) := by
  obtain ⟨s, changes⟩ := s
  unfold mergeSnapshotEntry
  dsimp only at hs hagree ⊢
  cases hget : s.entries.get? (inputKeyHex e.inputKey) with
  | none =>
    refine ⟨⟨hs.version, hs.normal, hs.scope⟩, fun key f hf => ?_, .inr ?_⟩
    · dsimp only at hf
      rw [BTreeMap.get?_insert] at hf
      split at hf
      · rename_i hkey
        obtain rfl := Option.some.inj hf
        rw [hkey, he]
      · exact hagree key f hf
    · refine rank_of_entriesRank_lt rfl (Pi.lt_def.2 ⟨fun key => ?_, inputKeyHex e.inputKey, ?_⟩)
      · rw [entriesRank_insert]
        split
        · rename_i hkey
          rw [hkey, entriesRank, hget]
          exact bot_le
        · exact le_refl _
      · rw [entriesRank_insert, if_pos rfl, entriesRank, hget]
        exact WithBot.bot_lt_coe _
  | some existing =>
    have hsame : existing.outputsHash = e.outputsHash := (hagree _ _ hget).trans he.symm
    dsimp only
    rw [if_pos hsame]
    refine ⟨⟨hs.version, hs.normal, hs.scope⟩, fun key f hf => ?_, ?_⟩
    · dsimp only at hf
      rw [BTreeMap.get?_insert] at hf
      split at hf
      · rename_i hkey
        obtain rfl := Option.some.inj hf
        rw [outputsHash_enrich hsame, hkey, hsame, he]
      · exact hagree key f hf
    · rcases enrich_cases existing e with henrich | hlt
      · left
        have hmap : s.entries.insert (inputKeyHex e.inputKey) existing = s.entries := by
          refine BTreeMap.ext_get? fun key => ?_
          rw [BTreeMap.get?_insert]
          split
          · rename_i hkey
            rw [hkey, hget]
          · rfl
        refine ⟨?_, by rw [henrich, hmap, Bool.or_false]⟩
        have hsup := entryRank_enrich existing e
        rw [henrich] at hsup
        rw [Known, entriesRank, hget]
        exact WithBot.coe_le_coe.2 (sup_eq_left.1 hsup.symm)
      · right
        refine rank_of_entriesRank_lt rfl (Pi.lt_def.2 ⟨fun key => ?_, inputKeyHex e.inputKey, ?_⟩)
        · rw [entriesRank_insert]
          split
          · rename_i hkey
            rw [hkey, entriesRank, hget]
            exact WithBot.coe_le_coe.2 hlt.le
          · exact le_refl _
        · rw [entriesRank_insert, if_pos rfl, entriesRank, hget]
          exact WithBot.coe_lt_coe.2 hlt

theorem snapshotEntries_cases (es : List SnapshotEntry) {s : Snapshot × MergeChanges}
    (hs : NormalSnapshot s.1) (hagree : Agrees out s.1)
    (hes : ∀ e ∈ es, e.outputsHash = out (inputKeyHex e.inputKey)) :
    NormalSnapshot (es.foldl mergeSnapshotEntry s).1 ∧
    Agrees out (es.foldl mergeSnapshotEntry s).1 ∧
    ((∀ e ∈ es, Known s.1 e) ∧ es.foldl mergeSnapshotEntry s = s ∨
      rank s.1 < rank (es.foldl mergeSnapshotEntry s).1) := by
  induction es generalizing s with
  | nil => exact ⟨hs, hagree, .inl ⟨nofun, rfl⟩⟩
  | cons e es ih =>
    obtain ⟨hn, ha, hcase⟩ := snapshotEntry_cases hs hagree (hes e List.mem_cons_self)
    obtain ⟨hn', ha', hcase'⟩ := ih hn ha fun e he => hes e (List.mem_cons_of_mem _ he)
    refine ⟨hn', ha', ?_⟩
    rw [List.foldl_cons]
    rcases hcase with ⟨hknown, heq⟩ | hlt
    · rw [heq] at hcase' ⊢
      exact hcase'.imp_left fun h => ⟨List.forall_mem_cons.2 ⟨hknown, h.1⟩, h.2⟩
    · rcases hcase' with ⟨-, heq'⟩ | hlt'
      · exact .inr (by rwa [heq'])
      · exact .inr (hlt.trans hlt')

/-- Observations change nothing, and say so unless one was dropped, or they raise the rank. -/
theorem observations_cases (os : List CacheFileObservation) {s : Snapshot × Bool}
    (hs : NormalSnapshot s.1) :
    ((∀ o ∈ os, Stale s.1 o ∨ Dropped s.1 o) ∧
      (os.foldl mergeCacheFileObservation s = s ∨ ∃ o ∈ os, Dropped s.1 o)) ∨
    rank s.1 < rank (os.foldl mergeCacheFileObservation s).1 := by
  induction os generalizing s with
  | nil => exact .inl ⟨nofun, .inl rfl⟩
  | cons o os ih =>
    rw [List.foldl_cons]
    have hn := normal_observation hs o
    rcases observation_cases hs o with ⟨hstale, heq⟩ | ⟨heq, hdrop⟩ | hlt
    · rw [heq]
      refine (ih hs).imp_left fun h => ⟨List.forall_mem_cons.2 ⟨.inl hstale, h.1⟩, ?_⟩
      exact h.2.imp_right fun ⟨p, hp, hd⟩ => ⟨p, List.mem_cons_of_mem _ hp, hd⟩
    · have hstep := ih hn
      rw [heq] at hstep
      refine hstep.imp_left fun h => ⟨List.forall_mem_cons.2 ⟨.inr hdrop, h.1⟩, ?_⟩
      exact .inr ⟨o, List.mem_cons_self, hdrop⟩
    · exact .inr (hlt.trans_le (rank_le_observations os hn))

theorem isSome_mergeSnapshotEntry {s : Snapshot × MergeChanges} {e : SnapshotEntry} {key : String}
    (h : (s.1.entries.get? key).isSome ∨ inputKeyHex e.inputKey = key) :
    ((mergeSnapshotEntry s e).1.entries.get? key).isSome := by
  unfold mergeSnapshotEntry
  dsimp only
  split
  · rename_i existing hget
    split
    · show (BTreeMap.get? (BTreeMap.insert _ _ _) key).isSome = true
      rw [BTreeMap.get?_insert]
      split
      · rfl
      · rename_i hne
        exact h.resolve_right fun heq => hne heq.symm
    · rcases h with h | rfl
      · exact h
      · exact Option.isSome_of_mem hget
  · show (BTreeMap.get? (BTreeMap.insert _ _ _) key).isSome = true
    rw [BTreeMap.get?_insert]
    split
    · rfl
    · rename_i hne
      exact h.resolve_right fun heq => hne heq.symm

theorem isSome_mergeSnapshotEntries (es : List SnapshotEntry) {s : Snapshot × MergeChanges}
    {key : String}
    (h : (s.1.entries.get? key).isSome ∨ ∃ e ∈ es, inputKeyHex e.inputKey = key) :
    ((es.foldl mergeSnapshotEntry s).1.entries.get? key).isSome := by
  induction es generalizing s with
  | nil => exact h.resolve_right fun ⟨_, he, _⟩ => List.not_mem_nil he
  | cons e es ih =>
    rw [List.foldl_cons]
    apply ih
    rcases h with h | ⟨f, hf, hkey⟩
    · exact .inl (isSome_mergeSnapshotEntry (.inl h))
    · rcases List.mem_cons.1 hf with rfl | hf
      · exact .inl (isSome_mergeSnapshotEntry (.inr hkey))
      · exact .inr ⟨f, hf, hkey⟩

/-- The keys of the updates are in the result. -/
theorem isSome_mergeSnapshotUpdates {entries : List SnapshotEntry}
    {observations : List CacheFileObservation} (hs : NormalSnapshot s) (hagree : Agrees out s)
    (hes : ∀ e ∈ entries, e.outputsHash = out (inputKeyHex e.inputKey)) :
    ∀ e ∈ entries, ((mergeSnapshotUpdates s entries observations).1.entries.get?
      (inputKeyHex e.inputKey)).isSome := by
  intro e he
  obtain ⟨hn, -, -⟩ := snapshotEntries_cases entries (s := (s, ⟨false, false⟩)) hs hagree hes
  obtain ⟨-, hentries, -⟩ := level_observations observations
    (s := ((entries.foldl mergeSnapshotEntry (s, ⟨false, false⟩)).1, false)) hn
  show ((observations.foldl mergeCacheFileObservation _).1.entries.get? _).isSome = true
  rw [hentries]
  exact isSome_mergeSnapshotEntries entries (.inr ⟨e, he, rfl⟩)

/-- Updates with nothing new, one of which is too old to be kept. -/
def OnlyDropped (s : Snapshot) (entries : List SnapshotEntry)
    (observations : List CacheFileObservation) : Prop :=
  (∀ e ∈ entries, Known s e) ∧ (∀ o ∈ observations, Stale s o ∨ Dropped s o) ∧
    ∃ o ∈ observations, Dropped s o

instance (s : Snapshot) (entries : List SnapshotEntry) (observations : List CacheFileObservation) :
    Decidable (OnlyDropped s entries observations) := inferInstanceAs (Decidable (_ ∧ _))

theorem mergeSnapshotUpdates_spec {entries : List SnapshotEntry}
    {observations : List CacheFileObservation} (hs : NormalSnapshot s) (hagree : Agrees out s)
    (hes : ∀ e ∈ entries, e.outputsHash = out (inputKeyHex e.inputKey)) :
    NormalSnapshot (mergeSnapshotUpdates s entries observations).1 ∧
    Agrees out (mergeSnapshotUpdates s entries observations).1 ∧
    ((mergeSnapshotUpdates s entries observations).2.changed = true →
      OnlyDropped s entries observations ∨
      rank s < rank (mergeSnapshotUpdates s entries observations).1) := by
  obtain ⟨hn, ha, hcase⟩ := snapshotEntries_cases entries
    (s := (s, ⟨false, false⟩)) hs hagree hes
  obtain ⟨hn', hentries, -⟩ := level_observations observations
    (s := ((entries.foldl mergeSnapshotEntry (s, ⟨false, false⟩)).1, false)) hn
  refine ⟨hn', fun key e he => ha key e (hentries ▸ he), fun hchanged => ?_⟩
  have hobs := observations_cases observations
    (s := ((entries.foldl mergeSnapshotEntry (s, ⟨false, false⟩)).1, false)) hn
  rcases hcase with ⟨hknown, heq⟩ | hlt
  · rw [heq] at hobs
    rcases hobs with ⟨hold, hsame | hdrop⟩ | hlt
    · -- no flag was raised
      have hflag : (mergeSnapshotUpdates s entries observations).2.changed =
          (false || (observations.foldl mergeCacheFileObservation (s, false)).2) := by
        unfold mergeSnapshotUpdates
        rw [heq]
        rfl
      dsimp only at hsame
      rw [hflag, hsame] at hchanged
      contradiction
    · exact .inl ⟨hknown, hold, hdrop⟩
    · right
      show rank s < rank (observations.foldl mergeCacheFileObservation
        ((entries.foldl mergeSnapshotEntry (s, ⟨false, false⟩)).1, false)).1
      rw [heq]
      exact hlt
  · have hle := rank_le_observations observations
      (s := ((entries.foldl mergeSnapshotEntry (s, ⟨false, false⟩)).1, false)) hn
    exact .inr (hlt.trans_le hle)

end Luchta.Proof.Store
