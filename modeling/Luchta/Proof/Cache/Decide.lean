import Luchta.Framework.Blake3
import Luchta.Impl.Decide
import Luchta.Proof.Cache.Streams

/-!
# Local and shared skip decisions

* `filesChanged_eq_false_iff`: the loop over both path maps finds nothing exactly when no path
  changed.
* `filesChanged_iff_hash`: it finds something exactly when the combined hashes differ.
* `changedDepTasks_eq_nil`: the two comparisons of dependency outputs agree.
* `decide_skip_iff`: what a local skip means.
* `decide_iff_sharedRestore`: a task is skipped here exactly when it may be restored from elsewhere.
-/

namespace Luchta.Proof.Cache

open Luchta.Framework Luchta.Impl Luchta.Impl.Decide

/-! ## The entry comparison -/

/-- What the loop knows: the count is zero exactly when no path seen so far has changed. -/
def CountsChanges (prior current : BTreeMap String FileEntry) (d : DiffState) : Prop :=
  d.changeCount = 0 ↔ ∀ path ∈ d.seenPaths, pathChanged (prior.get? path) (current.get? path) = false

theorem saturatingSucc_ne_zero (n : UInt32) : saturatingSucc n ≠ 0 := by
  unfold saturatingSucc
  split
  · rename_i h
    subst h
    decide
  · rename_i h
    intro h0
    have hn : n.toNat ≠ 4294967295 := fun h' => h (UInt32.toNat_inj.1 h')
    have := congrArg UInt32.toNat h0
    simp only [UInt32.toNat_add, UInt32.toNat_one, UInt32.toNat_zero] at this
    have := n.toNat_lt
    omega

theorem diffPath_step {prior current : BTreeMap String FileEntry} {limit : Nat} {d : DiffState}
    (h : CountsChanges prior current d) (path : String) :
    CountsChanges prior current (diffPath prior current limit d path) ∧
      ∀ q, q ∈ (diffPath prior current limit d path).seenPaths ↔ q = path ∨ q ∈ d.seenPaths := by
  unfold diffPath
  by_cases hseen : path ∈ d.seenPaths
  · rw [if_pos hseen]
    exact ⟨h, fun q => ⟨.inr, fun hq => hq.elim (fun e => e ▸ hseen) id⟩⟩
  · rw [if_neg hseen]
    by_cases hc : pathChanged (prior.get? path) (current.get? path) = true
    · simp only [hc, if_true]
      refine ⟨⟨fun h0 => (saturatingSucc_ne_zero _ h0).elim, fun hall => ?_⟩, fun q => List.mem_cons⟩
      rw [hall path List.mem_cons_self] at hc
      contradiction
    · simp only [hc, Bool.false_eq_true, if_false]
      refine ⟨?_, fun q => List.mem_cons⟩
      rw [Bool.not_eq_true] at hc
      show d.changeCount = 0 ↔ _
      rw [List.forall_mem_cons]
      exact h.trans ⟨fun hall => ⟨hc, hall⟩, fun hall => hall.2⟩

theorem foldl_diffPath {prior current : BTreeMap String FileEntry} {limit : Nat}
    (paths : List String) {d : DiffState} (h : CountsChanges prior current d) :
    CountsChanges prior current (paths.foldl (diffPath prior current limit) d) ∧
      ∀ q, q ∈ (paths.foldl (diffPath prior current limit) d).seenPaths ↔
        q ∈ paths ∨ q ∈ d.seenPaths := by
  induction paths generalizing d with
  | nil => exact ⟨h, fun q => by simp⟩
  | cons path paths ih =>
    obtain ⟨hstep, hseen⟩ := diffPath_step h path
    obtain ⟨hfold, hall⟩ := ih hstep
    refine ⟨hfold, fun q => ?_⟩
    rw [List.foldl_cons, hall, hseen, List.mem_cons]
    tauto

theorem get?_eq_none {b : BTreeMap String FileEntry} {path : String} (h : path ∉ b.keys) :
    b.get? path = none :=
  Option.eq_none_iff_forall_ne_some.2 fun e he => h (BTreeMap.mem_keys_iff.2 ⟨e, he⟩)

theorem filesChanged_eq_false_iff {l m : List FileEntry} : filesChanged l m = false ↔
    ∀ path, pathChanged ((byPath l).get? path) ((byPath m).get? path) = false := by
  obtain ⟨hcount, hseen⟩ := foldl_diffPath ((byPath l).keys ++ (byPath m).keys)
    (d := ⟨[], 0, []⟩) (by simp [CountsChanges])
  have hpos : ∀ n : UInt32, ¬ 0 < n ↔ n = 0 := fun n => by
    rw [UInt32.lt_iff_toNat_lt, ← UInt32.toNat_inj, UInt32.toNat_zero]
    omega
  show decide (0 < _) = false ↔ _
  rw [decide_eq_false_iff_not, hpos]
  refine hcount.trans ⟨fun h path => ?_, fun h path _ => h path⟩
  by_cases hin : path ∈ (byPath l).keys ++ (byPath m).keys
  · exact h path ((hseen path).2 (.inl hin))
  · -- a path of neither map is absent from both
    rw [List.mem_append, not_or] at hin
    rw [get?_eq_none hin.1, get?_eq_none hin.2]
    rfl

/-- Entry lists as the resolvers build them: one entry a path, and a sentinel for what is absent. -/
structure WellFormedEntries (entries : List FileEntry) : Prop where
  distinct : PathsDistinct entries
  absent_hash : ∀ e ∈ entries, e.absent = true → e.hash = Digest.zero
  fits : EntriesFit entries

variable {l m : List FileEntry}

theorem byPath_get? (hl : PathsDistinct l) {path : String} {e : FileEntry} :
    (byPath l).get? path = some e ↔ e ∈ l ∧ e.path = path := by
  have hnd : ((l.map fun entry => (entry.path, entry)).map Prod.fst).Nodup := by
    rw [List.map_map]
    exact hl
  rw [byPath, BTreeMap.get?_ofList hnd, List.mem_map]
  constructor
  · rintro ⟨a, ha, heq⟩
    obtain ⟨rfl, rfl⟩ := Prod.mk.inj heq
    exact ⟨ha, rfl⟩
  · rintro ⟨he, rfl⟩
    exact ⟨e, he, rfl⟩

/-- Two entries of one path differ in the comparison exactly when they differ in the stream. -/
theorem fileEntryChanged_iff (hl : WellFormedEntries l) (hm : WellFormedEntries m)
    {e f : FileEntry} (he : e ∈ l) (hf : f ∈ m) :
    fileEntryChanged e f = false ↔ entryKey e = entryKey f := by
  unfold fileEntryChanged fileIdentityChanged entryKey
  by_cases hp : e.path = f.path
  · by_cases ha : e.absent = f.absent
    · simp only [hp, ha]
      cases hfa : f.absent with
      | false => simp
      | true => simp [hl.absent_hash e he (ha.trans hfa), hm.absent_hash f hf hfa]
    · simp [ha]
  · simp [hp]

/-- No path of `l` changes: `m` has an entry with the same key. -/
theorem exists_entryKey_of_unchanged (hl : WellFormedEntries l) (hm : WellFormedEntries m)
    (h : ∀ path, pathChanged ((byPath l).get? path) ((byPath m).get? path) = false)
    {e : FileEntry} (he : e ∈ l) : ∃ f ∈ m, entryKey f = entryKey e := by
  have hpath := h e.path
  rw [(byPath_get? hl.distinct).2 ⟨he, rfl⟩] at hpath
  cases hc : (byPath m).get? e.path with
  | none =>
    rw [hc] at hpath
    contradiction
  | some f =>
    have hf := ((byPath_get? hm.distinct).1 hc).1
    rw [hc, pathChanged, fileEntryChanged_iff hl hm he hf] at hpath
    exact ⟨f, hf, hpath.symm⟩

theorem pathChanged_comm (o o' : Option FileEntry) : pathChanged o o' = pathChanged o' o := by
  cases o with
  | none => cases o' <;> rfl
  | some e =>
    cases o' with
    | none => rfl
    | some f =>
      show fileEntryChanged e f = fileEntryChanged f e
      unfold fileEntryChanged fileIdentityChanged
      simp only [ne_eq, eq_comm (a := f.path), eq_comm (a := f.hash)]
      by_cases ha : e.absent = f.absent
      · simp [ha]
      · simp [ha, Ne.symm ha]

theorem filesChanged_iff_keys (hl : WellFormedEntries l) (hm : WellFormedEntries m) :
    filesChanged l m = false ↔ sortedKeys l = sortedKeys m := by
  rw [sortedKeys_eq_iff hl.distinct hm.distinct, filesChanged_eq_false_iff]
  constructor
  · intro h k
    constructor
    · rintro ⟨e, he, rfl⟩
      exact exists_entryKey_of_unchanged hl hm h he
    · rintro ⟨f, hf, rfl⟩
      exact exists_entryKey_of_unchanged hm hl (fun path => pathChanged_comm _ _ ▸ h path) hf
  · intro h path
    cases hp : (byPath l).get? path with
    | none =>
      cases hc : (byPath m).get? path with
      | none => rfl
      | some f =>
        obtain ⟨hf, rfl⟩ := (byPath_get? hm.distinct).1 hc
        obtain ⟨e, he, hkey⟩ := (h _).2 ⟨f, hf, rfl⟩
        have hpath : e.path = f.path := congrArg Prod.fst hkey
        rw [(byPath_get? hl.distinct).2 ⟨he, hpath⟩] at hp
        contradiction
    | some e =>
      obtain ⟨he, rfl⟩ := (byPath_get? hl.distinct).1 hp
      obtain ⟨f, hf, hkey⟩ := (h _).1 ⟨e, he, rfl⟩
      have hpath : f.path = e.path := congrArg Prod.fst hkey
      rw [(byPath_get? hm.distinct).2 ⟨hf, hpath⟩]
      exact (fileEntryChanged_iff hl hm he hf).2 hkey.symm

/-- The hash has no collision between the streams of two lists of inputs. -/
def InputsNoCollision (blake3 : Bytes → Digest) (l m : List FileEntry) : Prop :=
  Set.InjOn blake3 {combinedEntriesStream COMBINED_INPUTS_HASH_DOMAIN l,
    combinedEntriesStream COMBINED_INPUTS_HASH_DOMAIN m}

theorem filesChanged_iff_hash {blake3 : Bytes → Digest} (hl : WellFormedEntries l)
    (hm : WellFormedEntries m) (hinj : InputsNoCollision blake3 l m) :
    filesChanged l m = false ↔ combinedInputsHash blake3 l = combinedInputsHash blake3 m := by
  rw [filesChanged_iff_keys hl hm, ← combinedEntriesStream_iff
    hl.fits hm.fits]
  exact ⟨congrArg blake3, hinj (.inl rfl) (.inr rfl)⟩

/-! ## Dependency outputs -/

theorem changedDepTasks_eq_nil {prior : TaskRunRecord} {current : CurrentState} :
    changedDepTasks prior current = [] ↔ prior.depOutputs = current.depOutputs := by
  unfold changedDepTasks
  rw [List.append_eq_nil_iff, List.map_eq_nil_iff, List.filter_eq_nil_iff, List.filter_eq_nil_iff]
  constructor
  · intro ⟨hprior, hcurrent⟩
    apply BTreeMap.ext_get?
    intro task
    cases hp : prior.depOutputs.get? task with
    | some hash =>
      have := hprior _ (BTreeMap.mem_entries_iff.2 hp)
      simp only [ne_eq, decide_not, Bool.not_eq_true', decide_eq_false_iff_not, not_not] at this
      exact this.symm
    | none =>
      -- a task of the current map alone would be new
      refine (Option.eq_none_iff_forall_ne_some.2 fun hash hc => ?_).symm
      apply hcurrent task (BTreeMap.mem_keys_iff.2 ⟨hash, hc⟩)
      simp [BTreeMap.containsKey, hp]
  · intro h
    refine ⟨fun e he => ?_, fun task htask => ?_⟩
    · rw [← h, BTreeMap.mem_entries_iff.1 he]
      simp
    · rw [← h, BTreeMap.mem_keys_iff] at htask
      obtain ⟨hash, hh⟩ := htask
      simp [BTreeMap.containsKey, hh]

/-! ## The decisions -/

/-- The checks before the files are looked at are those of a shared restore. -/
theorem decide_skip_iff {prior : TaskRunRecord} {current : CurrentState} :
    (decide (some prior) current).action = .Skip ↔
      cacheablePrior prior current = true ∧
        (checkPatternsUnchanged prior current).action = .Skip := by
  have hdeps : changedDepTasks prior current = [] ↔
      dependencyOutputsUnchanged prior current = true := by
    rw [changedDepTasks_eq_nil, dependencyOutputsUnchanged, decide_eq_true_iff]
  simp only [Decide.decide, cacheablePrior, Bool.and_eq_true, decide_eq_true_iff, ← hdeps]
  split_ifs <;> simp_all

theorem checkPatternsUnchanged_skip_iff {prior : TaskRunRecord} {current : CurrentState}
    {resolved outs : List FileEntry}
    (hin : current.resolver.resolveInputs (effectiveInputPatterns prior current) prior.inputs =
      some resolved)
    (hout : current.resolver.resolveOutputs (effectiveOutputPatterns prior current) prior.outputs =
      some outs) :
    (checkPatternsUnchanged prior current).action = .Skip ↔
      filesChanged prior.outputs outs = false ∧ filesChanged prior.inputs resolved = false := by
  unfold checkPatternsUnchanged changeReason
  simp only [hin, hout]
  cases ho : filesChanged prior.outputs outs with
  | true => simp
  | false =>
    cases hi : filesChanged prior.inputs resolved with
    | true => simp
    | false => simp

/-- For declared inputs that resolve and outputs that are still there, the local skip path and the
shared restore path decide alike. -/
theorem decide_iff_sharedRestore {blake3 : Bytes → Digest} {record : TaskRunRecord}
    {current : CurrentState} {resolved outs : List FileEntry}
    (hdeclared : record.detectedInputPatterns = false)
    (hin : current.resolver.resolveInputs current.declaredInputPatterns record.inputs =
      some resolved)
    (hout : current.resolver.resolveOutputs (effectiveOutputPatterns record current)
      record.outputs = some outs)
    (hsame : filesChanged record.outputs outs = false)
    (hrecorded : WellFormedEntries record.inputs) (hresolved : WellFormedEntries resolved)
    (hinj : InputsNoCollision blake3 record.inputs resolved) :
    (decide (some record) current).action = .Skip ↔
      decideSharedRestore blake3 record current (combinedInputsHash blake3 resolved) = true := by
  have hpatterns : effectiveInputPatterns record current = current.declaredInputPatterns := by
    rw [effectiveInputPatterns, hdeclared]
    rfl
  rw [decide_skip_iff, checkPatternsUnchanged_skip_iff (hpatterns ▸ hin) hout,
    filesChanged_iff_hash hrecorded hresolved hinj, decideSharedRestore, Bool.and_eq_true,
    decide_eq_true_iff]
  simp [hsame]

def compiledInputs (mtimeNs : Int) : List FileEntry :=
  [⟨"src/a.ts", 3, mtimeNs, Vector.replicate 32 7, false⟩, .absentEntry "tsconfig.json"]

/-- The record of a successful run, whose hashes are those of `touchedState`. -/
def compiledRecord : TaskRunRecord where
  schemaVersion := 1
  taskSpecHash := Digest.zero
  inputPatterns := ["src/**", "tsconfig.json"]
  inputs := compiledInputs 7
  outputPatterns := ["dist/**"]
  outputs := [⟨"dist/a.js", 5, 9, Vector.replicate 32 8, false⟩]
  detectedInputPatterns := false
  detectedOutputPatterns := false
  outputsHash := Digest.zero
  envHash := Digest.zero
  pkgDepHash := Digest.zero
  depOutputs := .ofList [("lib#build", Digest.zero)]
  exitStatus := 0
  succeeded := true
  startUnixMs := 1
  endUnixMs := 2
  cacheNonce := none
  runReason := none

/-- The state after the source file was touched without a change. -/
def touchedState : CurrentState where
  taskSpecHash := Digest.zero
  envHash := Digest.zero
  pkgDepHash := Digest.zero
  depOutputs := .ofList [("lib#build", Digest.zero)]
  cacheNonce := none
  declaredInputPatterns := ["src/**", "tsconfig.json"]
  declaredOutputPatterns := ["dist/**"]
  resolver := ⟨fun _ _ => some (compiledInputs 70), fun _ prior => some prior⟩

theorem decide_iff_sharedRestore_touched :
    decideSharedRestore Blake3.hash compiledRecord touchedState
      (combinedInputsHash Blake3.hash (compiledInputs 70)) = true := by
  have hwf : WellFormedEntries (compiledInputs 7) :=
    ⟨by unfold PathsDistinct; decide, by decide, by decide⟩
  have hwf' : WellFormedEntries (compiledInputs 70) :=
    ⟨by unfold PathsDistinct; decide, by decide, by decide⟩
  have hstream : combinedEntriesStream COMBINED_INPUTS_HASH_DOMAIN compiledRecord.inputs =
      combinedEntriesStream COMBINED_INPUTS_HASH_DOMAIN (compiledInputs 70) := by
    decide
  refine (decide_iff_sharedRestore rfl rfl rfl (by decide) hwf hwf' ?_).1 (by decide)
  rw [InputsNoCollision, hstream, Set.pair_eq_singleton]
  exact Set.injOn_singleton _ _

end Luchta.Proof.Cache
