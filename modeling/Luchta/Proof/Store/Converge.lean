import Luchta.Proof.Store.Idempotent
import Luchta.Spec.Observations

/-!
# Observations converge

* `summary_snapshot`: a snapshot has a summary of the history of every scope, whatever the
  order and grouping of the merges that it came from.
* `select_spec`: selection finds the one candidate that is preferred to all others.
* `observations_converge`: so what is left of a history, and what is selected from it, depends on the
  history alone, and no state is selected that is older than a tombstone of its class.
-/

namespace Luchta.Proof.Store

open Luchta.Framework Luchta.Impl Luchta.Spec

/-! ## Histories -/

abbrev Summary (history l : List CacheFileObservation) : Prop :=
  Newest.Summary identity CacheFileObservation.age MAX_OBSERVATIONS_PER_SCOPE history l

theorem ofScope_inputKeyHex (os : List CacheFileObservation) (scope : Digest) :
    ofScope os (inputKeyHex scope) = os.filter fun o => o.scopeHash = scope := by
  refine List.filter_congr fun o _ => decide_eq_decide.2 ?_
  exact ⟨fun h => toHex_injective h, fun h => h ▸ rfl⟩

theorem ofScope_append (os ps : List CacheFileObservation) (scope : String) :
    ofScope (os ++ ps) scope = ofScope os scope ++ ofScope ps scope := List.filter_append ..

/-- What a snapshot has of a scope after a merge. -/
theorem candidates_mergeAll (s : Snapshot) (es : List (String × SnapshotEntry))
    (os : List CacheFileObservation) (scope : String) :
    candidates (mergeAll s es os) scope = observeAll (candidates s scope) (ofScope os scope) := by
  obtain ⟨-, -, hfiles, -⟩ := foldl_mergeShardEntry es s
  unfold mergeAll mergeCacheFileObservations candidates
  rw [get?_observations]
  unfold candidates
  dsimp only
  rw [hfiles]
  split
  · rename_i hnil
    rw [hnil]
    rfl
  · rfl

theorem scopeObservations_eq (s : Snapshot) (scope : String) :
    scopeObservations s scope = ofScope (s.cacheFiles.entries.flatMap Prod.snd) scope := rfl

theorem normalSnapshot_mergeAll {s : Snapshot} (h : NormalSnapshot s)
    (es : List (String × SnapshotEntry)) (os : List CacheFileObservation) :
    NormalSnapshot (mergeAll s es os) := by
  obtain ⟨-, -, hfiles, hversion⟩ := foldl_mergeShardEntry es s
  have hnormal : NormalSnapshot (es.foldl mergeShardEntry s) :=
    ⟨hversion.trans h.version, fun hl => h.normal (hfiles ▸ hl), fun hl => h.scope (hfiles ▸ hl)⟩
  exact (level_observations os (s := (es.foldl mergeShardEntry s, false)) hnormal).1

theorem normalSnapshot_snapshot (g : Grouping) : NormalSnapshot g.snapshot := by
  induction g with
  | new => exact normalSnapshot_new
  | shard g stored ih => exact normalSnapshot_mergeAll ih _ _
  | merge g h ihg ihh => exact normalSnapshot_mergeAll ihg _ _
  | update g entries observations ih =>
    rw [Grouping.snapshot, mergeSnapshotUpdates_eq]
    exact normalSnapshot_mergeAll ih _ _

/-- Whatever the order and grouping, a scope has a summary of its history. -/
theorem summary_snapshot (g : Grouping) (scope : String) :
    Summary (ofScope g.shown scope) (candidates g.snapshot scope) := by
  induction g with
  | new => exact .nil
  | shard g stored ih =>
    rw [Grouping.snapshot, Grouping.shown, ofScope_append, mergeShardEntries_eq, candidates_mergeAll]
    exact ih.observeAll identity_of_age _
  | merge g h ihg ihh =>
    rw [Grouping.snapshot, Grouping.shown, ofScope_append, mergeShardEntries_eq, candidates_mergeAll,
      ← scopeObservations_eq]
    -- the shard shows its summary, in whatever order its scopes stand
    exact ihg.append identity_of_age ihh ((normalSnapshot_snapshot h).mem_scopeObservations scope)
  | update g entries observations ih =>
    rw [Grouping.snapshot, Grouping.shown, ofScope_append, mergeSnapshotUpdates_eq,
      candidates_mergeAll]
    exact ih.observeAll identity_of_age _

/-! ## Selecting -/

theorem select_cons (candidates : List CacheFileObservation) (current : Digest)
    (best : CacheFileObservation) :
    ∃ o ∈ best :: candidates, candidates.foldl (fun best o => some (best.elim o fun b =>
        if o.preference current < b.preference current then b else o)) (some best) = some o ∧
      ∀ p ∈ best :: candidates, p.preference current ≤ o.preference current := by
  induction candidates generalizing best with
  | nil => exact ⟨best, List.mem_singleton_self _, rfl, by simp⟩
  | cons a l ih =>
    rw [List.foldl_cons, Option.elim_some]
    by_cases hlt : a.preference current < best.preference current
    · rw [if_pos hlt]
      obtain ⟨o, ho, heq, hmax⟩ := ih best
      refine ⟨o, ?_, heq, ?_⟩
      · rcases List.mem_cons.1 ho with rfl | ho
        · exact List.mem_cons_self
        · exact List.mem_cons_of_mem _ (List.mem_cons_of_mem _ ho)
      · have hbest := hmax best List.mem_cons_self
        simp only [List.forall_mem_cons] at hmax ⊢
        exact ⟨hbest, hlt.le.trans hbest, hmax.2⟩
    · rw [if_neg hlt]
      obtain ⟨o, ho, heq, hmax⟩ := ih a
      refine ⟨o, List.mem_cons_of_mem _ ho, heq, ?_⟩
      have ha := hmax a List.mem_cons_self
      simp only [List.forall_mem_cons] at hmax ⊢
      exact ⟨(not_lt.1 hlt).trans ha, ha, hmax.2⟩

/-- Selection finds a candidate that no other is preferred to. -/
theorem select_spec {l : List CacheFileObservation} {current : Digest} {o : CacheFileObservation}
    (h : selectCacheFileObservation l current = some o) :
    o ∈ l ∧ ∀ p ∈ l, p.preference current ≤ o.preference current := by
  cases l with
  | nil => contradiction
  | cons a l =>
    obtain ⟨p, hp, heq, hmax⟩ := select_cons l current a
    obtain rfl : p = o := Option.some.inj (heq.symm.trans h)
    exact ⟨hp, hmax⟩

theorem select_eq_none {l : List CacheFileObservation} {current : Digest} :
    selectCacheFileObservation l current = none ↔ l = [] := by
  constructor
  · intro h
    cases l with
    | nil => rfl
    | cons a l =>
      obtain ⟨p, -, heq, -⟩ := select_cons l current a
      exact absurd (heq.symm.trans h) (Option.some_ne_none p)
  · rintro rfl
    rfl

theorem preference_le_iff {o p : CacheFileObservation} {current : Digest}
    (h : SameClass current o p) : p.preference current ≤ o.preference current ↔ p.age ≤ o.age := by
  have hsame : decide (o.upstreamOutputsHash = current) = decide (p.upstreamOutputsHash = current) :=
    decide_eq_decide.2 h
  unfold CacheFileObservation.preference
  rw [hsame, Prod.Lex.toLex_le_toLex]
  simp

theorem age_le_time {o p : CacheFileObservation} (h : o.age ≤ p.age) :
    o.cachedAtUnixMs ≤ p.cachedAtUnixMs := by
  unfold CacheFileObservation.age at h
  rw [Prod.Lex.toLex_le_toLex] at h
  rw [UInt64.le_iff_toNat_le]
  exact h.elim le_of_lt fun h => h.1.le

/-- Observations of one scope with states of known sizes are known by their ages. -/
theorem eq_of_age {history : List CacheFileObservation} {scope : Digest}
    (hscope : ∀ o ∈ history, o.scopeHash = scope)
    (hbytes : ∀ o ∈ history, ∀ p ∈ history, o.stateBlobHash = p.stateBlobHash →
      o.stateBytes = p.stateBytes) :
    ∀ o ∈ history, ∀ p ∈ history, o.age = p.age → o = p := by
  intro o ho p hp h
  have hid := Prod.mk.inj (identity_of_age o p h)
  have htime : o.cachedAtUnixMs = p.cachedAtUnixMs :=
    UInt64.le_antisymm (age_le_time h.le) (age_le_time h.ge)
  have hstate := hbytes o ho p hp hid.2
  have hsame := (hscope o ho).trans (hscope p hp).symm
  cases o
  cases p
  simp_all

/-! ## Convergence -/

/-- What a snapshot has of a scope is the newest observation of each upstream and state that was ever
shown, cut to the cap: it depends on nothing but the history. Selection from it depends on no order,
and the state that it finds has evidence in its class that is no older than any tombstone there. -/
theorem observations_converge (g : Grouping) (scope : Digest)
    (hbytes : ∀ o ∈ g.history scope, ∀ p ∈ g.history scope, o.stateBlobHash = p.stateBlobHash →
      o.stateBytes = p.stateBytes) :
    candidates g.snapshot (inputKeyHex scope) = newestObservations (g.history scope) ∧
    (∀ h : Grouping, (h.history scope).Perm (g.history scope) →
      candidates h.snapshot (inputKeyHex scope) = candidates g.snapshot (inputKeyHex scope)) ∧
    ∀ (current : Digest) (l : List CacheFileObservation),
      l.Perm (candidates g.snapshot (inputKeyHex scope)) →
      selectCacheFileObservation l current =
        selectCacheFileObservation (candidates g.snapshot (inputKeyHex scope)) current ∧
      ∀ o, selectCacheFileObservation l current = some o → o.stateBlobHash ≠ none →
        ∀ t ∈ g.history scope, t.stateBlobHash = none → SameClass current o t →
          ∃ p ∈ g.history scope, p.stateBlobHash = o.stateBlobHash ∧ SameClass current o p ∧
            t.cachedAtUnixMs ≤ p.cachedAtUnixMs := by
  have hsummary : ∀ h : Grouping, Summary (h.history scope) (candidates h.snapshot (inputKeyHex scope)) :=
    fun h => by
      rw [Grouping.history, ← ofScope_inputKeyHex]
      exact summary_snapshot h (inputKeyHex scope)
  have hscope : ∀ o ∈ g.history scope, o.scopeHash = scope := fun o ho =>
    of_decide_eq_true (List.mem_filter.1 ho).2
  have hinj := eq_of_age hscope hbytes
  have hg := hsummary g
  refine ⟨hg.eq_newestOf identity_of_age hinj, fun h hperm => ?_, fun current l hperm => ?_⟩
  · exact ((hsummary h).congr fun o => hperm.mem_iff).unique hinj hg
  · have hselected : ∀ o, selectCacheFileObservation l current = some o →
        o ∈ candidates g.snapshot (inputKeyHex scope) ∧
          ∀ p ∈ candidates g.snapshot (inputKeyHex scope),
            p.preference current ≤ o.preference current := fun o ho => by
      obtain ⟨hmem, hmax⟩ := select_spec ho
      exact ⟨hperm.mem_iff.1 hmem, fun p hp => hmax p (hperm.mem_iff.2 hp)⟩
    refine ⟨?_, fun o ho hstate t ht htomb hclass => ?_⟩
    · cases hsel : selectCacheFileObservation (candidates g.snapshot (inputKeyHex scope)) current with
      | none =>
        rw [select_eq_none] at hsel ⊢
        rw [hsel] at hperm
        exact hperm.eq_nil
      | some p =>
        obtain ⟨hp, hpmax⟩ := select_spec hsel
        cases hl : selectCacheFileObservation l current with
        | none =>
          rw [select_eq_none.1 hl] at hperm
          rw [hperm.symm.eq_nil] at hp
          contradiction
        | some o =>
          obtain ⟨ho, homax⟩ := hselected o hl
          have hpref := le_antisymm (hpmax o ho) (homax p hp)
          have hage : o.age = p.age := (Prod.mk.inj (toLex.injective hpref)).2
          rw [hinj o (hg.newest o ho).1 p (hg.newest p hp).1 hage]
    · obtain ⟨homem, homax⟩ := hselected o ho
      have hage : t.age ≤ o.age := by
        rcases hg.covered t ht with ⟨p, hp, hid, hle⟩ | hfull
        · -- the tombstone of these upstream outputs that is left is not newer either
          have hup : p.upstreamOutputsHash = t.upstreamOutputsHash := congrArg Prod.fst hid
          have hclass' : SameClass current o p := by
            unfold SameClass
            rw [hup]
            exact hclass
          exact hle.trans ((preference_le_iff hclass').1 (homax p hp))
        · exact (hg.normal.forall_newer hfull o homem).le
      exact ⟨o, (hg.newest o homem).1, rfl, Iff.rfl, age_le_time hage⟩

/-- A tombstone that was stored and one that was merged in later. -/
def sampleGrouping : Grouping := .update (.shard .new (tombstonesAt [1])) [] [tombstoneAt 2]

theorem observations_converge_sample :
    candidates sampleGrouping.snapshot (inputKeyHex Digest.zero) = [tombstoneAt 2, tombstoneAt 1] := by
  rw [(observations_converge sampleGrouping Digest.zero (by decide +kernel)).1]
  decide +kernel

end Luchta.Proof.Store
