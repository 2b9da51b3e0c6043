import Luchta.Framework.Converge
import Luchta.Proof.Store.Rank

/-!
# Merging is monotone and idempotent

* `mergeShardEntry_kept`, `mergeShardEntry_settled`: what one entry keeps, and what it leaves behind.
* `get?_observations`: what the observations shown to a snapshot make of each scope.
* `merge_monotone_idempotent`: merging a shard or updates keeps what was there, says so where it
  changes something, and does nothing the second time.
* `merge_reorders`: of a snapshot whose observations are not newest first, the order can change unsaid.
-/

namespace Luchta.Proof.Store

open Luchta.Framework Luchta.Impl

/-! ## Entries -/

/-- What merging keeps of an entry. -/
structure EntryKept (e f : SnapshotEntry) : Prop where
  outputs : f.outputsHash = e.outputsHash
  trusted : e.durationTrusted = true → f.durationTrusted = true
  inlineMeta : e.inlineMeta.isSome = true → f.inlineMeta.isSome = true

theorem EntryKept.refl (e : SnapshotEntry) : EntryKept e e := ⟨rfl, id, id⟩

theorem EntryKept.trans {e f g : SnapshotEntry} (h : EntryKept e f) (h' : EntryKept f g) : EntryKept e g :=
  ⟨h'.outputs.trans h.outputs, h'.trusted ∘ h.trusted, h'.inlineMeta ∘ h.inlineMeta⟩

def Keeps (s t : Snapshot) : Prop :=
  ∀ key e, s.entries.get? key = some e → ∃ f, t.entries.get? key = some f ∧ EntryKept e f

theorem Keeps.refl (s : Snapshot) : Keeps s s := fun _ e h => ⟨e, h, .refl e⟩

theorem Keeps.trans {s t u : Snapshot} (h : Keeps s t) (h' : Keeps t u) : Keeps s u := by
  intro key e he
  obtain ⟨f, hf, hkept⟩ := h key e he
  obtain ⟨g, hg, hkept'⟩ := h' key f hf
  exact ⟨g, hg, hkept.trans hkept'⟩

theorem entryRank_le_iff {e f : SnapshotEntry} : entryRank e ≤ entryRank f ↔
    (e.durationTrusted = true → f.durationTrusted = true) ∧
      (e.inlineMeta.isSome = true → f.inlineMeta.isSome = true) := by
  unfold entryRank
  rw [Prod.mk_le_mk]
  rfl

theorem entryKept_enrich {e f : SnapshotEntry} (h : e.outputsHash = f.outputsHash) :
    EntryKept e (enrichSameOutputEntry e f).1 := by
  have hle : entryRank e ≤ entryRank (enrichSameOutputEntry e f).1 := by
    rw [entryRank_enrich]
    exact le_sup_left
  obtain ⟨htrusted, hmeta⟩ := entryRank_le_iff.1 hle
  exact ⟨outputsHash_enrich h, htrusted, hmeta⟩

/-- What an entry already knows does not enrich it. -/
theorem enrich_of_le {e f : SnapshotEntry} (h : entryRank f ≤ entryRank e) :
    enrichSameOutputEntry e f = (e, false) := by
  refine (enrich_cases e f).resolve_right fun hlt => ?_
  rw [entryRank_enrich, sup_eq_left.2 h] at hlt
  exact lt_irrefl _ hlt

/-- The key of an entry is taken, and its entry has nothing to learn from this one. -/
def Settled (s : Snapshot) (e : String × SnapshotEntry) : Prop :=
  ∃ f, s.entries.get? e.1 = some f ∧
    (f.outputsHash = e.2.outputsHash → entryRank e.2 ≤ entryRank f)

theorem get?_mergeShardEntry (s : Snapshot) (e : String × SnapshotEntry) (key : String) :
    (mergeShardEntry s e).entries.get? key = if key = e.1 then
      match s.entries.get? key with
      | none => some e.2
      | some f =>
        some (if f.outputsHash = e.2.outputsHash then (enrichSameOutputEntry f e.2).1 else f)
    else s.entries.get? key := by
  unfold mergeShardEntry
  cases hget : s.entries.get? e.1 with
  | none =>
    dsimp only
    rw [BTreeMap.get?_insert]
    split
    · rename_i hkey
      rw [hkey, hget]
    · rfl
  | some f =>
    dsimp only
    split
    · rename_i hout
      rw [BTreeMap.get?_insert]
      split
      · rename_i hkey
        rw [hkey, hget]
        exact congrArg some (if_pos hout).symm
      · rfl
    · rename_i hout
      split
      · rename_i hkey
        rw [hkey, hget]
        exact congrArg some (if_neg hout).symm
      · rfl

theorem mergeShardEntry_kept (s : Snapshot) (e : String × SnapshotEntry) :
    Keeps s (mergeShardEntry s e) := by
  intro key f hf
  rw [get?_mergeShardEntry, hf]
  split
  · refine ⟨_, rfl, ?_⟩
    split
    · exact entryKept_enrich ‹_›
    · exact .refl f
  · exact ⟨f, rfl, .refl f⟩

theorem mergeShardEntry_settled (s : Snapshot) (e : String × SnapshotEntry) :
    Settled (mergeShardEntry s e) e := by
  unfold Settled
  rw [get?_mergeShardEntry, if_pos rfl]
  cases s.entries.get? e.1 with
  | none => exact ⟨e.2, rfl, fun _ => le_rfl⟩
  | some f =>
    refine ⟨_, rfl, fun h => ?_⟩
    split at h
    · rw [if_pos ‹_›, entryRank_enrich]
      exact le_sup_right
    · contradiction

theorem Settled.of_keeps {s t : Snapshot} {e : String × SnapshotEntry} (h : Settled s e)
    (hst : Keeps s t) : Settled t e := by
  obtain ⟨f, hf, hle⟩ := h
  obtain ⟨g, hg, hkept⟩ := hst e.1 f hf
  refine ⟨g, hg, fun hout => (hle (hkept.outputs ▸ hout)).trans ?_⟩
  exact entryRank_le_iff.2 ⟨hkept.trusted, hkept.inlineMeta⟩

theorem mergeShardEntry_of_settled {s : Snapshot} {e : String × SnapshotEntry} (h : Settled s e) :
    mergeShardEntry s e = s := by
  obtain ⟨f, hf, hle⟩ := h
  unfold mergeShardEntry
  rw [hf]
  dsimp only
  split
  · rename_i hout
    rw [enrich_of_le (hle hout), BTreeMap.insert_of_get? hf]
  · rfl

theorem mergeShardEntry_files (s : Snapshot) (e : String × SnapshotEntry) :
    (mergeShardEntry s e).cacheFiles = s.cacheFiles ∧
      (mergeShardEntry s e).schemaVersion = s.schemaVersion := by
  unfold mergeShardEntry
  split
  · exact ⟨rfl, rfl⟩
  · split <;> exact ⟨rfl, rfl⟩

/-- After all entries, what was there is kept and every entry is settled. -/
theorem foldl_mergeShardEntry (es : List (String × SnapshotEntry)) (s : Snapshot) :
    Keeps s (es.foldl mergeShardEntry s) ∧ (∀ e ∈ es, Settled (es.foldl mergeShardEntry s) e) ∧
      (es.foldl mergeShardEntry s).cacheFiles = s.cacheFiles ∧
      (es.foldl mergeShardEntry s).schemaVersion = s.schemaVersion := by
  induction es generalizing s with
  | nil => exact ⟨.refl s, nofun, rfl, rfl⟩
  | cons e es ih =>
    obtain ⟨hkeeps, hsettled, hfiles, hversion⟩ := ih (mergeShardEntry s e)
    obtain ⟨hfiles', hversion'⟩ := mergeShardEntry_files s e
    refine ⟨(mergeShardEntry_kept s e).trans hkeeps, List.forall_mem_cons.2 ⟨?_, hsettled⟩,
      hfiles.trans hfiles', hversion.trans hversion'⟩
    exact (mergeShardEntry_settled s e).of_keeps hkeeps

theorem foldl_mergeShardEntry_settled {es : List (String × SnapshotEntry)} {s : Snapshot}
    (h : ∀ e ∈ es, Settled s e) : es.foldl mergeShardEntry s = s := by
  induction es with
  | nil => rfl
  | cons e es ih =>
    obtain ⟨he, hes⟩ := List.forall_mem_cons.1 h
    rw [List.foldl_cons, mergeShardEntry_of_settled he, ih hes]

/-! ## Observations -/

/-- The observations of a list that belong to a scope. -/
def ofScope (os : List CacheFileObservation) (scope : String) : List CacheFileObservation :=
  os.filter fun o => inputKeyHex o.scopeHash = scope

abbrev observeAll (l os : List CacheFileObservation) : List CacheFileObservation :=
  Newest.observeAll identity CacheFileObservation.age MAX_OBSERVATIONS_PER_SCOPE l os

/-- What is left of the observations shown to a snapshot. -/
theorem get?_observations (os : List CacheFileObservation) (s : Snapshot × Bool) (scope : String) :
    (os.foldl mergeCacheFileObservation s).1.cacheFiles.get? scope =
      if ofScope os scope = [] then s.1.cacheFiles.get? scope
      else some (observeAll (candidates s.1 scope) (ofScope os scope)) := by
  induction os generalizing s with
  | nil => rfl
  | cons o os ih =>
    rw [List.foldl_cons, ih, candidates_observation]
    unfold ofScope
    by_cases hscope : inputKeyHex o.scopeHash = scope
    · subst hscope
      rw [List.filter_cons_of_pos (by simp), if_pos rfl, if_neg (List.cons_ne_nil _ _),
        observeCandidates_eq]
      split
      · rename_i hnil
        rw [hnil]
        unfold mergeCacheFileObservation
        dsimp only
        rw [BTreeMap.get?_insert, if_pos rfl, observeCandidates_eq]
        rfl
      · rfl
    · rw [List.filter_cons_of_neg (by simpa using hscope), if_neg (Ne.symm hscope)]
      split
      · unfold mergeCacheFileObservation
        dsimp only
        rw [BTreeMap.get?_insert, if_neg (Ne.symm hscope)]
      · rfl

theorem observations_entries (os : List CacheFileObservation) (s : Snapshot × Bool) :
    (os.foldl mergeCacheFileObservation s).1.entries = s.1.entries ∧
      (os.foldl mergeCacheFileObservation s).1.schemaVersion = s.1.schemaVersion := by
  induction os generalizing s with
  | nil => exact ⟨rfl, rfl⟩
  | cons o os ih => exact ih (mergeCacheFileObservation s o)

theorem ext_get? {s t : Snapshot} (hversion : s.schemaVersion = t.schemaVersion)
    (hentries : s.entries = t.entries)
    (hfiles : ∀ scope, s.cacheFiles.get? scope = t.cacheFiles.get? scope) : s = t := by
  obtain ⟨sv, se, sc⟩ := s
  obtain ⟨tv, te, tc⟩ := t
  obtain rfl : sv = tv := hversion
  obtain rfl : se = te := hentries
  obtain rfl : sc = tc := BTreeMap.ext_get? hfiles
  rfl

/-- Showing the same observations again changes nothing. -/
theorem observations_idem (s : Snapshot) (os : List CacheFileObservation) :
    (mergeCacheFileObservations (mergeCacheFileObservations s os).1 os).1 =
      (mergeCacheFileObservations s os).1 := by
  unfold mergeCacheFileObservations
  obtain ⟨hentries, hversion⟩ :=
    observations_entries os ((os.foldl mergeCacheFileObservation (s, false)).1, false)
  refine ext_get? hversion hentries fun scope => ?_
  rw [get?_observations, get?_observations]
  split
  · rfl
  · rename_i hne
    have hcand : candidates (os.foldl mergeCacheFileObservation (s, false)).1 scope =
        observeAll (candidates s scope) (ofScope os scope) := by
      unfold candidates
      rw [get?_observations, if_neg hne]
      rfl
    show some (observeAll (candidates _ scope) _) = _
    rw [hcand]
    exact congrArg some (Newest.observeAll_idem identity_of_age _ _)

/-! ## Merging -/

/-- What merging a shard and merging updates have in common. -/
def mergeAll (s : Snapshot) (es : List (String × SnapshotEntry)) (os : List CacheFileObservation) :
    Snapshot := (mergeCacheFileObservations (es.foldl mergeShardEntry s) os).1

def keyed (e : SnapshotEntry) : String × SnapshotEntry := (inputKeyHex e.inputKey, e)

theorem mergeSnapshotEntry_fst (s : Snapshot × MergeChanges) (e : SnapshotEntry) :
    (mergeSnapshotEntry s e).1 = mergeShardEntry s.1 (keyed e) := by
  unfold mergeSnapshotEntry mergeShardEntry keyed
  dsimp only
  cases s.1.entries.get? (inputKeyHex e.inputKey) with
  | none => rfl
  | some f =>
    dsimp only
    split <;> rfl

theorem foldl_mergeSnapshotEntry_fst (es : List SnapshotEntry) (s : Snapshot × MergeChanges) :
    (es.foldl mergeSnapshotEntry s).1 = (es.map keyed).foldl mergeShardEntry s.1 := by
  induction es generalizing s with
  | nil => rfl
  | cons e es ih => rw [List.foldl_cons, ih, mergeSnapshotEntry_fst, List.map_cons, List.foldl_cons]

theorem mergeShardEntries_eq (s shard : Snapshot) : mergeShardEntries s shard =
    mergeAll s shard.entries.entries (shard.cacheFiles.entries.flatMap Prod.snd) := rfl

theorem mergeSnapshotUpdates_eq (s : Snapshot) (es : List SnapshotEntry)
    (os : List CacheFileObservation) :
    (mergeSnapshotUpdates s es os).1 = mergeAll s (es.map keyed) os := by
  show (mergeCacheFileObservations (es.foldl mergeSnapshotEntry _).1 os).1 = _
  rw [foldl_mergeSnapshotEntry_fst]
  rfl

theorem Keeps.congr {s t u : Snapshot} (h : Keeps s t) (hentries : u.entries = t.entries) : Keeps s u :=
  fun key e he => hentries ▸ h key e he

theorem mergeAll_spec (s : Snapshot) (es : List (String × SnapshotEntry))
    (os : List CacheFileObservation) :
    Keeps s (mergeAll s es os) ∧ ∀ e ∈ es, Settled (mergeAll s es os) e := by
  obtain ⟨hkeeps, hsettled, -, -⟩ := foldl_mergeShardEntry es s
  have hentries := (observations_entries os (es.foldl mergeShardEntry s, false)).1
  refine ⟨hkeeps.congr hentries, fun e he => (hsettled e he).of_keeps ?_⟩
  exact (Keeps.refl _).congr hentries

theorem mergeAll_idem (s : Snapshot) (es : List (String × SnapshotEntry))
    (os : List CacheFileObservation) : mergeAll (mergeAll s es os) es os = mergeAll s es os := by
  conv_lhs => rw [mergeAll]
  rw [foldl_mergeShardEntry_settled (mergeAll_spec s es os).2]
  exact observations_idem _ os

/-! ## Changes -/

/-- Every scope has its observations newest first. -/
def NewestFirst (s : Snapshot) : Prop :=
  ∀ scope l, s.cacheFiles.get? scope = some l → l.Pairwise fun o p => p.age < o.age

theorem changed_entries (es : List SnapshotEntry) {s : Snapshot × MergeChanges}
    (h : (es.foldl mergeSnapshotEntry s).2.changed = false) :
    s.2.changed = false ∧ (es.foldl mergeSnapshotEntry s).1 = s.1 := by
  induction es generalizing s with
  | nil => exact ⟨h, rfl⟩
  | cons e es ih =>
    obtain ⟨hstep, hrest⟩ := ih h
    rw [List.foldl_cons, hrest]
    unfold mergeSnapshotEntry at hstep ⊢
    dsimp only at hstep ⊢
    cases hget : s.1.entries.get? (inputKeyHex e.inputKey) with
    | none =>
      rw [hget] at hstep
      contradiction
    | some f =>
      rw [hget] at hstep
      dsimp only at hstep ⊢
      split at hstep
      · obtain ⟨hs, hchanged⟩ := Bool.or_eq_false_iff.1 hstep
        have henrich : enrichSameOutputEntry f e = (f, false) := by
          unfold enrichSameOutputEntry at hchanged ⊢
          split at hchanged
          · contradiction
          · split at hchanged
            · contradiction
            · rename_i h₁ h₂
              rw [if_neg h₁, if_neg h₂]
        rw [if_pos ‹_›, henrich, BTreeMap.insert_of_get? hget]
        exact ⟨hs, rfl⟩
      · rw [if_neg ‹_›]
        exact ⟨hstep, rfl⟩

theorem observe_unchanged {l : List CacheFileObservation} {o : CacheFileObservation}
    (hl : l.Pairwise fun o p => p.age < o.age) (h : (observeCandidates l o).2 = false) :
    l ≠ [] ∧ (observeCandidates l o).1 = l := by
  rw [observeCandidates_eq] at h ⊢
  obtain ⟨hupsert, hlen⟩ := Bool.or_eq_false_iff.1 h
  have hsame : ∀ l : List CacheFileObservation,
      (Newest.upsert identity CacheFileObservation.age o l).2 = false →
      l ≠ [] ∧ (Newest.upsert identity CacheFileObservation.age o l).1 = l := by
    intro l
    induction l with
    | nil => exact nofun
    | cons p l ih =>
      unfold Newest.upsert
      intro h
      refine ⟨List.cons_ne_nil _ _, ?_⟩
      split at h
      · split at h
        · contradiction
        · rename_i h₁ h₂
          rw [if_pos h₁, if_neg h₂]
      · rename_i h₁
        rw [if_neg h₁, (ih h).2]
  obtain ⟨hne, heq⟩ := hsame l hupsert
  refine ⟨hne, ?_⟩
  rw [heq, Newest.sortBy_of_sorted hl] at hlen
  show List.take _ (sortBy _ (Newest.upsert _ _ o l).1) = l
  rw [heq, Newest.sortBy_of_sorted hl]
  exact List.take_of_length_le (not_lt.1 (of_decide_eq_false hlen))

theorem changed_observations (os : List CacheFileObservation) {s : Snapshot × Bool}
    (hs : NewestFirst s.1) (h : (os.foldl mergeCacheFileObservation s).2 = false) :
    s.2 = false ∧ (os.foldl mergeCacheFileObservation s).1 = s.1 := by
  have hchanged : ∀ (os : List CacheFileObservation) (s : Snapshot × Bool),
      (os.foldl mergeCacheFileObservation s).2 = false → s.2 = false := by
    intro os
    induction os with
    | nil => exact fun s => id
    | cons o os ih => exact fun s h => (Bool.or_eq_false_iff.1 (ih _ h)).1
  induction os generalizing s with
  | nil => exact ⟨h, rfl⟩
  | cons o os ih =>
    have hstep := hchanged os _ h
    obtain ⟨hs', hobserve⟩ := Bool.or_eq_false_iff.1 hstep
    have hsorted : (candidates s.1 (inputKeyHex o.scopeHash)).Pairwise fun o p => p.age < o.age := by
      unfold candidates
      cases hc : s.1.cacheFiles.get? (inputKeyHex o.scopeHash) with
      | none => exact .nil
      | some l => exact hs _ l hc
    obtain ⟨hne, hsame⟩ := observe_unchanged hsorted hobserve
    have hmerge : (mergeCacheFileObservation s o).1 = s.1 := by
      refine Eq.trans ?_ (insert_candidates hne)
      unfold mergeCacheFileObservation
      dsimp only
      rw [← candidates, hsame]
    obtain ⟨-, hrest⟩ := ih (s := mergeCacheFileObservation s o) (hmerge ▸ hs) h
    exact ⟨hs', hrest.trans hmerge⟩

/-- Merging a shard or updates keeps all that was there and takes in every key that is new; updates
that change nothing are the ones that are reported to change nothing, where the observations are in
their order; and the second time nothing happens. -/
theorem merge_monotone_idempotent (s shard : Snapshot) (es : List SnapshotEntry)
    (os : List CacheFileObservation) :
    (Keeps s (mergeShardEntries s shard) ∧
      (∀ key, (shard.entries.get? key).isSome = true →
        ((mergeShardEntries s shard).entries.get? key).isSome = true) ∧
      mergeShardEntries (mergeShardEntries s shard) shard = mergeShardEntries s shard) ∧
    (Keeps s (mergeSnapshotUpdates s es os).1 ∧
      (∀ e ∈ es,
        ((mergeSnapshotUpdates s es os).1.entries.get? (inputKeyHex e.inputKey)).isSome = true) ∧
      (NewestFirst s → (mergeSnapshotUpdates s es os).2.changed = false →
        (mergeSnapshotUpdates s es os).1 = s) ∧
      (mergeSnapshotUpdates (mergeSnapshotUpdates s es os).1 es os).1 =
        (mergeSnapshotUpdates s es os).1) := by
  have hsome : ∀ {t : Snapshot} {e : String × SnapshotEntry}, Settled t e →
      (t.entries.get? e.1).isSome = true := by
    rintro t e ⟨f, hf, -⟩
    rw [hf]
    rfl
  refine ⟨?_, ?_⟩
  · obtain ⟨hkeeps, hsettled⟩ := mergeAll_spec s shard.entries.entries
      (shard.cacheFiles.entries.flatMap Prod.snd)
    refine ⟨hkeeps, fun key hkey => ?_, mergeAll_idem _ _ _⟩
    obtain ⟨e, he⟩ := Option.isSome_iff_exists.1 hkey
    exact hsome (hsettled (key, e) (BTreeMap.mem_entries_iff.2 he))
  · rw [mergeSnapshotUpdates_eq, mergeSnapshotUpdates_eq]
    obtain ⟨hkeeps, hsettled⟩ := mergeAll_spec s (es.map keyed) os
    refine ⟨hkeeps, fun e he => hsome (hsettled (keyed e) (List.mem_map_of_mem he)), ?_,
      mergeAll_idem _ _ _⟩
    intro hfirst hchanged
    obtain ⟨hentries, hobs⟩ := Bool.or_eq_false_iff.1 hchanged
    obtain ⟨-, heq⟩ := changed_entries es hentries
    have hfirst' : NewestFirst (es.foldl mergeSnapshotEntry (s, ⟨false, false⟩)).1 := by
      rw [heq]
      exact hfirst
    obtain ⟨-, heq'⟩ := changed_observations os
      (s := ((es.foldl mergeSnapshotEntry (s, ⟨false, false⟩)).1, false)) hfirst' hobs
    rw [← mergeSnapshotUpdates_eq]
    exact heq'.trans heq

/-- An observation of the one scope there is. -/
def tombstoneAt (t : Nat) : CacheFileObservation :=
  ⟨Digest.zero, Vector.replicate 32 (.ofNat t), none, 0, .ofNat t⟩

def tombstonesAt (ts : List Nat) : Snapshot :=
  { Snapshot.new with cacheFiles := .ofList [(inputKeyHex Digest.zero, ts.map tombstoneAt)] }

/-- Observations that are newest first and shown again. -/
theorem merge_monotone_idempotent_sample :
    (mergeSnapshotUpdates (tombstonesAt [2, 1]) [] [tombstoneAt 1]).1 = tombstonesAt [2, 1] := by
  have hentries : (tombstonesAt [2, 1]).cacheFiles.entries =
      [(inputKeyHex Digest.zero, [tombstoneAt 2, tombstoneAt 1])] := by decide +kernel
  refine (merge_monotone_idempotent (tombstonesAt [2, 1]) .new [] [tombstoneAt 1]).2.2.2.1 ?_
    (by decide +kernel)
  intro scope l hl
  have hmem := BTreeMap.mem_entries_iff.2 hl
  rw [hentries] at hmem
  obtain ⟨-, rfl⟩ := Prod.mk.inj (List.mem_singleton.1 hmem)
  decide +kernel

/-- The older of two observations that stand in the wrong order is shown again: nothing is reported,
and the order has changed. -/
theorem merge_reorders :
    (mergeSnapshotUpdates (tombstonesAt [1, 2]) [] [tombstoneAt 1]).2.changed = false ∧
      (mergeSnapshotUpdates (tombstonesAt [1, 2]) [] [tombstoneAt 1]).1 ≠ tombstonesAt [1, 2] := by
  decide +kernel

end Luchta.Proof.Store
