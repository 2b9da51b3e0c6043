import Luchta.Impl.SharedLookup
import Luchta.Proof.Cache.Decide
import Luchta.Proof.Dispatch.Outcomes

/-!
# What becomes of a failed resolution

A resolution that fails counts as one that finds nothing. The record of such a run is as good as any
other: it is reused where that emptiness is found again.

* `store_entries`: an entry is published exactly when the store answers so.
* `success_caches`: what a run that succeeded leaves in both caches.
* `failed_resolution_iff`: when a failed resolution has no consequences.
-/

namespace Luchta.Proof.Dispatch

open Luchta.Framework Luchta.Impl Luchta.Proof.Cache

/-! ## Publishing -/

/-- The entries that the shared cache was given. -/
def SharedCache.published (c : SharedCache) : HashMap Digest SnapshotEntry × List (Digest × Digest) :=
  (c.pendingEntries, c.pushedArtifacts)

variable {io : StoreIo} {shared : SharedCache}

/-- An entry is stored under this key. -/
def Published (key : Digest) (c c' : SharedCache) : Prop :=
  (∃ entry, c'.pendingEntries = c.pendingEntries.insert key entry) ∧
    ∃ outputsHash, c'.pushedArtifacts = c.pushedArtifacts ++ [(outputsHash, key)]

/-- Either the entry is stored, or the cache is as it was. -/
def StoredOrSame (key : Digest) (shared : SharedCache) (o : StoreOutcome) (s : SharedCache) : Prop :=
  o = .Stored ∧ Published key shared s ∨ o ≠ .Stored ∧ s = shared

theorem finishStore_entries (entry : SnapshotEntry) : Triple (· = shared) (finishStore entry)
    (StoredOrSame entry.inputKey shared) fun s => s = shared := by
  refine .bind (Q := fun _ => Published entry.inputKey shared)
    (.modify fun s hs => ?_) fun _ => .pure fun s hs => .inl ⟨rfl, hs⟩
  subst hs
  exact ⟨⟨entry, rfl⟩, _, rfl⟩

theorem liftM_same {α : Type} {β : Type} {x : Except IoError α} {f : α → SharedM β}
    {R : β → SharedCache → Prop} {E : SharedCache → Prop}
    (h : ∀ a, x = .ok a → Triple (· = shared) (f a) R E) (hE : E shared) :
    Triple (· = shared) (liftM x >>= f) R E := by
  cases x with
  | ok a => exact h a rfl
  | error e =>
    intro s hs
    subst hs
    exact hE

theorem storeBlob_entries (request : SharedCacheStoreRequest) (ms bytes : UInt64) (record : Bytes) :
    Triple (· = shared) (storeBlob io request ms bytes record)
      (StoredOrSame request.inputKey shared) fun s => s = shared := by
  refine .get fun s hs => ?_
  subst hs
  refine liftM_same (fun blobResult _ => ?_) rfl
  split
  · exact .pure fun _ hs => .inr ⟨by simp, hs⟩
  all_goals
    refine liftM_same (fun encoded _ => ?_) rfl
    split
    · exact finishStore_entries (snapshotEntry request ms bytes _)
    · exact liftM_same (fun _ _ => finishStore_entries (snapshotEntry request ms bytes none)) rfl

theorem storeInternal_entries (request : SharedCacheStoreRequest) (ms : UInt64) :
    Triple (· = shared) (storeInternal io request ms) (StoredOrSame request.inputKey shared)
      fun s => s = shared := by
  refine .get fun s hs => ?_
  subst hs
  refine liftM_same (fun preflight hpre => ?_) rfl
  split
  · rename_i outcome
    refine .pure fun _ hs => .inr ⟨?_, hs⟩
    rintro rfl
    unfold storePreflight at hpre
    split at hpre
    · cases hpre
    · split at hpre
      · cases hpre
      · split at hpre <;> cases hpre
  · refine liftM_same (fun record _ => liftM_same (fun encoded _ => ?_) rfl) rfl
    refine .get fun s' hs' => ?_
    subst hs'
    split
    · exact .pure fun _ hs => .inr ⟨by simp, hs⟩
    · exact storeBlob_entries request ms _ record

theorem store_entries (request : SharedCacheStoreRequest) (ms : UInt64) :
    Triple (· = shared) (storeWithExecutionDuration io request ms)
      (StoredOrSame request.inputKey shared) fun s => s = shared := by
  refine .get fun s hs => ?_
  subst hs
  split
  · exact .pure fun _ hs => .inr ⟨by simp, hs⟩
  · exact storeInternal_entries request ms

theorem storeCacheFileState_published (request : CacheFileStoreRequest) :
    Keeps (fun s => SharedCache.published s = SharedCache.published shared)
      (storeCacheFileState io request) := by
  have hrecord : Keeps (fun s => SharedCache.published s = SharedCache.published shared)
      (recordCacheFile request) :=
    .bind (Q := fun _ s => SharedCache.published s = SharedCache.published shared)
      (.modify fun s hs => hs) fun _ => .pure fun s hs => hs
  rw [storeCacheFileState]
  split
  · exact hrecord
  · refine .get fun s hs => liftM_same (fun blobResult _ => ?_) hs
    split
    all_goals first
      | exact .pure fun s' heq => heq ▸ hs
      | refine .bind (Q := fun _ s => SharedCache.published s = SharedCache.published shared)
          (.modify fun s' heq => ?_) fun _ => hrecord
        subst heq
        exact hs

/-- Advisory files are not entries. -/
theorem storeCacheFiles_published (request : CacheFileStoreRequest) (ms : UInt64) :
    Keeps (fun s => SharedCache.published s = SharedCache.published shared)
      (storeCacheFilesWithExecutionDuration io request ms) := by
  refine .get fun s hs => ?_
  have hsame : ∀ o : StoreOutcome, Triple (· = s) (pure o : SharedM StoreOutcome)
      (fun _ s => SharedCache.published s = SharedCache.published shared)
      fun s => SharedCache.published s = SharedCache.published shared :=
    fun o => .pure fun s' heq => heq ▸ hs
  split
  · exact hsame _
  · split
    · exact hsame _
    · split
      · exact hsame _
      · split
        · exact .throw fun s' heq => heq ▸ hs
        · exact hsame _
        · split
          · exact hsame _
          · exact (storeCacheFileState_published request).of_pre hs

variable {env : RunEnv} {ctx : CacheWriteContext}

theorem publishAdvisory_published (repoRoot : Path) (record : TaskRunRecord) (ms : UInt64) :
    SharedCache.published (publishAdvisoryCacheFiles env ctx repoRoot record ms shared) =
      SharedCache.published shared := by
  rw [publishAdvisoryCacheFiles]
  split
  · rfl
  · rename_i request _
    have h := @storeCacheFiles_published env.io shared request ms shared rfl
    cases hr : storeCacheFilesWithExecutionDuration env.io request ms shared with
    | mk r s =>
      rw [hr] at h
      cases r <;> exact h

/-- An entry is published exactly when the store answers so. -/
theorem storeShared_published (repoRoot : Path) (record : TaskRunRecord) (logs : CapturedLogs)
    (ms : UInt64) :
    SharedCache.published (storeShared env ctx repoRoot record logs ms shared).2 =
        SharedCache.published shared ↔
      (storeWithExecutionDuration env.io (storeRequest env ctx repoRoot record logs) ms shared).1 ≠
        .ok .Stored := by
  have hentries := @store_entries env.io shared (storeRequest env ctx repoRoot record logs) ms shared rfl
  show SharedCache.published (publishAdvisoryCacheFiles env ctx repoRoot record ms
    (storeWithExecutionDuration env.io (storeRequest env ctx repoRoot record logs) ms shared).2) = _ ↔ _
  rw [publishAdvisory_published]
  cases hr : storeWithExecutionDuration env.io (storeRequest env ctx repoRoot record logs) ms shared with
  | mk r s =>
    rw [hr] at hentries
    cases r with
    | error e => simp [show s = shared from hentries]
    | ok o =>
      obtain ⟨rfl, -, outputsHash, hpushed⟩ | ⟨ho, rfl⟩ := hentries
      · simp [SharedCache.published, hpushed]
      · simp [ho]

/-! ## Runs that succeeded -/

variable {run : SpawnedTaskRun} {outcome : TaskRunOutcome} {before : RunState}

/-- The inputs as they are read once the task has run: none, where their resolution fails. -/
def inputsAfter (env : RunEnv) (ctx : CacheWriteContext) : Option (List FileEntry) :=
  match resolveCacheInputs env ctx ctx.taskDef.inputs with
  | .ExpansionError _ => none
  | .Ok entries => some entries
  | .IoError => some []

/-- The inputs expand and do not seem to have changed, and the patterns are globs. -/
structure Builds (env : RunEnv) (ctx : CacheWriteContext) (outcome : TaskRunOutcome) : Prop where
  stable : ∃ postInputs, inputsAfter env ctx = some postInputs ∧
    (Decide.filesDiff ctx.snapshot postInputs 10).2.2 = 0
  inputs : ∃ globset, buildWatchGlobset env ctx.taskDef.inputs = .ok globset
  outputs : ∃ globset,
    buildWatchGlobset env (effectiveOutputPatterns ctx.taskDef (some outcome)).1 = .ok globset

/-- The caches of a run. -/
def caches (s : RunState) : HashMap String TaskRunRecord × Option SharedCache :=
  (s.records, s.sharedCache)

theorem checkInputStability_eq {pre post : List FileEntry} {taskId : TaskId}
    (h : (Decide.filesDiff pre post 10).2.2 = 0) : checkInputStability pre post taskId = .ok pre := by
  unfold checkInputStability
  exact if_neg (not_not.2 h)

theorem checkInputStability_error {pre post : List FileEntry} {taskId : TaskId}
    (h : (Decide.filesDiff pre post 10).2.2 ≠ 0) :
    ∃ reason, checkInputStability pre post taskId = .error reason := by
  unfold checkInputStability
  exact ⟨_, if_pos h⟩

/-- The context of the write has the start of this run. -/
def started (run : SpawnedTaskRun) (ctx : CacheWriteContext) : CacheWriteContext :=
  { ctx with startUnixMs := run.startUnixMs }

/-- Where the inputs expand, the record is built from what is there afterwards. -/
theorem buildRunRecord_resolved {postInputs : List FileEntry}
    (h : inputsAfter env ctx = some postInputs) (args : BuildRunRecordArgs) :
    buildRunRecord env (started run ctx) args = recordResolved env (started run ctx) args postInputs := by
  rw [buildRunRecord]
  show (match resolveCacheInputs env ctx ctx.taskDef.inputs with
    | .ExpansionError message => (return .ExpansionError message : RunM BuildRecordResult)
    | .Ok entries => recordResolved env (started run ctx) args entries
    | .IoError => recordResolved env (started run ctx) args []) = _
  unfold inputsAfter at h
  split at h
  · cases h
  all_goals
    obtain rfl := Option.some.inj h
    simp [*]

theorem recordResolved_success (postInputs : List FileEntry) :
    recordResolved env (started run ctx) (successArgs run outcome ctx) postInputs =
      match checkInputStability ctx.snapshot postInputs ctx.taskId with
      | .error reason => return .StabilityMismatch reason
      | .ok _ => do
        registerTaskWatchStateWithInputs env (started run ctx) (successRecord env run outcome ctx)
          ctx.snapshot "run task watch registration should compile globs"
        return .Ok (successRecord env run outcome ctx) := by
  by_cases h : (Decide.filesDiff ctx.snapshot postInputs 10).2.2 = 0
  · have hstable : ∀ taskId, checkInputStability ctx.snapshot postInputs taskId = .ok ctx.snapshot :=
      fun _ => checkInputStability_eq h
    rw [hstable]
    show buildSuccessfulRunRecord env (started run ctx) _ _ postInputs = _
    rw [buildSuccessfulRunRecord]
    show (match checkInputStability ctx.snapshot postInputs ctx.taskId with
      | .error reason => (return .StabilityMismatch reason : RunM BuildRecordResult)
      | .ok _ => _) = _
    rw [hstable]
    rfl
  · obtain ⟨reason, hreason⟩ := checkInputStability_error h
    rw [hreason]
    show buildSuccessfulRunRecord env (started run ctx) _ _ postInputs = _
    rw [buildSuccessfulRunRecord]
    show (match checkInputStability ctx.snapshot postInputs ctx.taskId with
      | .error reason => (return .StabilityMismatch reason : RunM BuildRecordResult)
      | .ok _ => _) = _
    rw [hreason]

theorem buildRunRecord_builds {s₀ : RunState} (h : Builds env ctx outcome) :
    Triple (fun s => caches s = caches s₀)
      (buildRunRecord env (started run ctx) (successArgs run outcome ctx))
      (fun r s => r = .Ok (successRecord env run outcome ctx) ∧ caches s = caches s₀)
      fun _ => False := by
  obtain ⟨⟨postInputs, hpost, hcount⟩, ⟨inputs, hinputs⟩, ⟨outputs, houtputs⟩⟩ := h
  rw [buildRunRecord_resolved hpost, recordResolved_success, checkInputStability_eq hcount]
  refine .bind (Q := fun _ s => caches s = caches s₀) ?_ fun _ => .pure fun s hs => ⟨rfl, hs⟩
  rw [registerTaskWatchStateWithInputs]
  have hrecord : (successRecord env run outcome ctx).inputPatterns = ctx.taskDef.inputs := rfl
  have hdetected : (successRecord env run outcome ctx).outputPatterns =
    (effectiveOutputPatterns ctx.taskDef (some outcome)).1 := rfl
  rw [hrecord, hdetected, hinputs, houtputs]
  exact .modify fun s hs => hs

theorem buildRunRecord_not_builds {s₀ : RunState} (h : ¬ Builds env ctx outcome) :
    Triple (fun s => caches s = caches s₀)
      (buildRunRecord env (started run ctx) (successArgs run outcome ctx))
      (fun r s => (∀ record, r ≠ .Ok record) ∧ caches s = caches s₀) fun s => caches s = caches s₀ := by
  cases hpost : inputsAfter env ctx with
  | none =>
    rw [buildRunRecord]
    have hresolve : resolveCacheInputs env (started run ctx) (started run ctx).taskDef.inputs =
        resolveCacheInputs env ctx ctx.taskDef.inputs := rfl
    dsimp only [successArgs]
    rw [hresolve]
    cases hentries : resolveCacheInputs env ctx ctx.taskDef.inputs with
    | ExpansionError message => exact .pure fun s hs => ⟨fun record => by simp, hs⟩
    | Ok entries => simp [inputsAfter, hentries] at hpost
    | IoError => simp [inputsAfter, hentries] at hpost
  | some postInputs =>
    rw [buildRunRecord_resolved hpost, recordResolved_success]
    split
    · exact .pure fun s hs => ⟨fun record => by simp, hs⟩
    · rename_i stable hstable
      have hcount : (Decide.filesDiff ctx.snapshot postInputs 10).2.2 = 0 := by
        by_contra hne
        obtain ⟨reason, hreason⟩ := checkInputStability_error hne
        rw [hreason] at hstable
        cases hstable
      refine .bind (Q := fun _ _ => False) ?_ fun _ _ hs => hs.elim
      rw [registerTaskWatchStateWithInputs]
      split
      · rename_i inputs outputs hinputs houtputs
        exact absurd ⟨⟨postInputs, hpost, hcount⟩, ⟨inputs, hinputs⟩, ⟨outputs, houtputs⟩⟩ h
      · exact .throw fun s hs => hs

/-- What the shared cache holds once the record is offered to it. -/
def offered (env : RunEnv) (run : SpawnedTaskRun) (ctx : CacheWriteContext) (outcome : TaskRunOutcome)
    (cache : SharedCache) : SharedCache :=
  if run.cacheEnabled && !run.noCache then
    (storeShared env (started run ctx) run.repoRoot (successRecord env run outcome ctx) run.logs
      run.executionDurationMs cache).2
  else cache

/-- What the local cache holds once the record is written to it. -/
def written (env : RunEnv) (run : SpawnedTaskRun) (ctx : CacheWriteContext) (outcome : TaskRunOutcome)
    (records : HashMap String TaskRunRecord) : HashMap String TaskRunRecord :=
  if env.localWrites then
    records.insert ctx.taskId.toString (successRecord env run outcome ctx)
  else records

theorem writeShared_caches {p : PersistArgs} {record : TaskRunRecord} {s₀ : RunState} :
    Triple (· = s₀) (writeShared env ctx p record)
      (fun _ s => caches s = (s₀.records, s₀.sharedCache.map fun cache =>
        if p.sharedStoreEnabled then
          (storeShared env ctx p.repoRoot record p.logs p.executionDurationMs cache).2
        else cache)) fun _ => False := by
  refine .get fun s hs => ?_
  subst hs
  split
  · rename_i hnone
    refine .pure fun s' heq => ?_
    subst heq
    cases hcache : s'.sharedCache with
    | none => simp [caches, hcache]
    | some cache =>
      rw [hcache, Option.filter_eq_none_iff] at hnone
      have hoff : p.sharedStoreEnabled = false := by simpa using hnone
      simp [caches, hcache, hoff]
  · rename_i cache hcache
    obtain ⟨hsome, hon⟩ := Option.filter_eq_some_iff.1 hcache
    refine .bind (Q := fun _ s' => caches s' = _) (.modify fun s' heq => ?_) fun _ =>
      .pure fun s' hs' => hs'
    subst heq
    show (s'.records, some (storeShared env ctx p.repoRoot record p.logs p.executionDurationMs
      cache).2) = _
    rw [hsome, Option.map_some, if_pos hon]

theorem writeRunRecord_builds {p : PersistArgs} (h : Builds env ctx outcome)
    (hargs : p.args = successArgs run outcome ctx)
    (hon : p.sharedStoreEnabled = (run.cacheEnabled && !run.noCache))
    (hrest : p.repoRoot = run.repoRoot ∧ p.logs = run.logs ∧
      p.executionDurationMs = run.executionDurationMs) :
    Triple (· = before) (writeRunRecord env (started run ctx) p)
      (fun _ s => caches s = (written env run ctx outcome before.records,
        before.sharedCache.map (offered env run ctx outcome))) fun _ => False := by
  obtain ⟨hroot, hlogs, hms⟩ := hrest
  rw [writeRunRecord, hargs]
  refine ((buildRunRecord_builds h).of_pre rfl).bind fun r => .of_fact fun hr => ?_
  subst hr
  refine .bind (Q := fun _ s => caches s = caches before) (.modify fun s hs => hs) fun _ => ?_
  refine .bind (Q := fun _ s => caches s = (written env run ctx outcome before.records,
    before.sharedCache)) (.modify fun s hs => ?_) fun _ => ?_
  · obtain ⟨hrecords, hshared⟩ := Prod.mk.inj hs
    rw [written, ← hrecords, ← hshared]
    split <;> rfl
  · intro s hs
    obtain ⟨hrecords, hshared⟩ := Prod.mk.inj hs
    have hrun := @writeShared_caches env (started run ctx) p (successRecord env run outcome ctx) s s rfl
    rw [hrecords, hshared, hon, hroot, hlogs, hms] at hrun
    exact hrun

/-- What a run that succeeded leaves in both caches. -/
theorem success_caches (hctx : run.cacheWrite = some ctx)
    (hsuccess : outcome.status.success = true) :
    (Builds env ctx outcome → Triple (· = before) (runTaskAndPersistCache env run (.ok outcome))
      (fun _ s => caches s = (written env run ctx outcome before.records,
        before.sharedCache.map (offered env run ctx outcome))) fun _ => False) ∧
    (¬ Builds env ctx outcome → Triple (· = before) (runTaskAndPersistCache env run (.ok outcome))
      (fun _ s => caches s = caches before) fun s => caches s = caches before) := by
  have hsucceeded : (Except.ok outcome : Except ExecutorError _).toOption.any (·.status.success) = true :=
    hsuccess
  rw [runTaskAndPersistCache]
  simp only [hsucceeded]
  rw [persistCacheState, hctx]
  constructor
  · intro h
    refine Triple.bind (Q := fun _ s => caches s = (written env run ctx outcome before.records,
      before.sharedCache.map (offered env run ctx outcome))) ?_ fun _ => .pure fun s hs => hs
    exact (writeRunRecord_builds h rfl rfl ⟨rfl, rfl, rfl⟩).bind fun _ => .pure fun s hs => hs
  · intro h
    refine Triple.bind (Q := fun _ s => caches s = caches before) ?_ fun _ => .pure fun s hs => hs
    refine Triple.bind (Q := fun _ s => caches s = caches before) ?_ fun _ => .pure fun s hs => hs
    refine ((buildRunRecord_not_builds h).of_pre rfl).bind fun r => .of_fact fun hr => ?_
    split
    · exact .pure fun s hs => hs
    · exact .pure fun s hs => hs
    · exact absurd rfl (hr _)

/-! ## Reuse -/

theorem filesChanged_self (entries : List FileEntry) : Decide.filesChanged entries entries = false := by
  rw [filesChanged_eq_false_iff]
  intro path
  cases (Decide.byPath entries).get? path with
  | none => rfl
  | some entry => simp [Decide.pathChanged, Decide.fileEntryChanged, Decide.fileIdentityChanged]

/-- The state that the record was made in, where the same files are found again. -/
def recordedState (record : TaskRunRecord) : Decide.CurrentState where
  taskSpecHash := record.taskSpecHash
  envHash := record.envHash
  pkgDepHash := record.pkgDepHash
  depOutputs := record.depOutputs
  cacheNonce := record.cacheNonce
  declaredInputPatterns := record.inputPatterns
  declaredOutputPatterns := record.outputPatterns
  resolver := ⟨fun _ _ => some record.inputs, fun _ _ => some record.outputs⟩

/-- The record of a success is reused where the same files are found again. -/
theorem skip_recorded {record : TaskRunRecord} (h : record.succeeded = true) :
    (Decide.decide (some record) (recordedState record)).action = .Skip := by
  rw [decide_skip_iff, checkPatternsUnchanged_skip_iff rfl rfl]
  refine ⟨?_, filesChanged_self _, filesChanged_self _⟩
  simp [Decide.cacheablePrior, Decide.dependencyOutputsUnchanged, recordedState, h]

/-- No later decision, and no later restore, takes the record for an answer. -/
def NeverReused (record : TaskRunRecord) : Prop :=
  ∀ current, (Decide.decide (some record) current).action ≠ .Skip ∧
    ∀ blake3 inputsHash, Decide.decideSharedRestore blake3 record current inputsHash = false

theorem neverReused_of_failed {record : TaskRunRecord} (h : record.succeeded = false) :
    NeverReused record := by
  intro current
  refine ⟨fun hskip => ?_, fun blake3 inputsHash => ?_⟩
  · have hprior := (decide_skip_iff.1 hskip).1
    simp [Decide.cacheablePrior, h] at hprior
  · simp [Decide.decideSharedRestore, Decide.cacheablePrior, h]

/-! ## Failed resolutions -/

/-- The run of a task whose inputs were resolved on `diskBefore`. -/
def prepared (env : RunEnv) (diskBefore : Disk) (ctx : CacheWriteContext) (run : SpawnedTaskRun) :
    SpawnedTaskRun :=
  { run with
    cacheWrite := some (ctx.capturePreExecutionSnapshot { env with disk := diskBefore }) }

/-- One of the resolutions of the run fails: of its inputs before it, of its inputs after it, or of
its outputs after it. -/
def SomeUnresolved (env : RunEnv) (diskBefore : Disk) (ctx : CacheWriteContext)
    (outcome : Option TaskRunOutcome) : Prop :=
  ctx.preSnapshot = none ∧
      resolveCacheInputs { env with disk := diskBefore } ctx ctx.taskDef.inputs = .IoError ∨
    resolveCacheInputs env ctx ctx.taskDef.inputs = .IoError ∨
    resolveCacheOutputs env ctx (effectiveOutputPatterns ctx.taskDef outcome).1 = none

/-- Nothing is published, and nothing reuses the record that the run writes. -/
structure Harmless (env : RunEnv) (run : SpawnedTaskRun) (taskId : TaskId)
    (outcomeRes : Except ExecutorError TaskRunOutcome) (before : RunState) : Prop where
  unpublished :
    (runTaskAndPersistCache env run outcomeRes before).2.sharedCache.map SharedCache.published =
      before.sharedCache.map SharedCache.published
  never_reused : ∀ record,
    (runTaskAndPersistCache env run outcomeRes { before with records := ∅ }).2.records.lookup
      taskId.toString = some record → NeverReused record

/-- The shared cache takes the record. -/
def Stores (env : RunEnv) (run : SpawnedTaskRun) (ctx : CacheWriteContext) (outcome : TaskRunOutcome)
    (before : RunState) : Prop :=
  (run.cacheEnabled && !run.noCache) = true ∧ ∃ cache, before.sharedCache = some cache ∧
    (storeWithExecutionDuration env.io
      (storeRequest env (started run ctx) run.repoRoot (successRecord env run outcome ctx) run.logs)
      run.executionDurationMs cache).1 = .ok .Stored

/-- The run succeeds, its record is built, and one of the caches takes it. -/
def Taken (env : RunEnv) (run : SpawnedTaskRun) (ctx : CacheWriteContext)
    (outcomeRes : Except ExecutorError TaskRunOutcome) (before : RunState) : Prop :=
  ∃ outcome, outcomeRes = .ok outcome ∧ outcome.status.success = true ∧ Builds env ctx outcome ∧
    (env.localWrites = true ∨ Stores env run ctx outcome before)

theorem run_unpublished {outcomeRes : Except ExecutorError TaskRunOutcome}
    (h : outcomeRes.toOption.any (·.status.success) = false) (s₀ : RunState) :
    Unpublished s₀ (runTaskAndPersistCache env run outcomeRes s₀).2 := by
  have htriple : Triple (Unpublished s₀) (runTaskAndPersistCache env run outcomeRes) _ _ :=
    failed_unpublished h
  have hrun := htriple s₀ (.refl s₀)
  cases hr : runTaskAndPersistCache env run outcomeRes s₀ with
  | mk r s =>
    rw [hr] at hrun
    cases r with
    | ok succeeded => exact hrun.2
    | error message => exact hrun

theorem harmless_of_failed {outcomeRes : Except ExecutorError TaskRunOutcome} {taskId : TaskId}
    (h : outcomeRes.toOption.any (·.status.success) = false) :
    Harmless env run taskId outcomeRes before := by
  refine ⟨congrArg _ (run_unpublished h before).1, fun record hrecord => neverReused_of_failed ?_⟩
  by_contra hsucceeded
  rw [Bool.not_eq_false] at hsucceeded
  cases (run_unpublished h { before with records := ∅ }).2 _ record hrecord hsucceeded

/-- The caches after a run, whether or not it ended in a panic. -/
theorem caches_of_triple {x : RunM Bool} {s₀ : RunState}
    {c : HashMap String TaskRunRecord × Option SharedCache} {E : RunState → Prop}
    (h : Triple (· = s₀) x (fun _ s => caches s = c) E) (hE : ∀ s, E s → caches s = c) :
    caches (x s₀).2 = c := by
  have hrun := h s₀ rfl
  cases hr : x s₀ with
  | mk r s =>
    rw [hr] at hrun
    cases r with
    | ok a => exact hrun
    | error e => exact hE s hrun

theorem harmless_of_not_builds (hctx : run.cacheWrite = some ctx)
    (hsuccess : outcome.status.success = true) (h : ¬ Builds env ctx outcome) :
    Harmless env run ctx.taskId (.ok outcome) before := by
  have hcaches : ∀ s₀ : RunState,
      caches (runTaskAndPersistCache env run (.ok outcome) s₀).2 = caches s₀ := fun s₀ =>
    caches_of_triple ((success_caches hctx hsuccess).2 h) fun _ hs => hs
  constructor
  · rw [(Prod.mk.inj (hcaches before)).2]
  · intro record hrecord
    rw [(Prod.mk.inj (hcaches { before with records := ∅ })).1] at hrecord
    cases hrecord

theorem harmless_iff_of_builds (hctx : run.cacheWrite = some ctx)
    (hsuccess : outcome.status.success = true) (h : Builds env ctx outcome) :
    Harmless env run ctx.taskId (.ok outcome) before ↔
      ¬ (env.localWrites = true ∨ Stores env run ctx outcome before) := by
  have hcaches : ∀ s₀ : RunState, caches (runTaskAndPersistCache env run (.ok outcome) s₀).2 =
      (written env run ctx outcome s₀.records, s₀.sharedCache.map (offered env run ctx outcome)) :=
    fun s₀ => caches_of_triple ((success_caches hctx hsuccess).1 h) fun _ hs => hs.elim
  have hshared := (Prod.mk.inj (hcaches before)).2
  have hlocal := (Prod.mk.inj (hcaches { before with records := ∅ })).1
  constructor
  · intro hharmless htaken
    obtain hwrites | ⟨hon, cache, hcache, hstored⟩ := htaken
    · refine (hharmless.never_reused (successRecord env run outcome ctx) ?_ _).1 (skip_recorded rfl)
      rw [hlocal, written, if_pos hwrites, HashMap.lookup_insert_if, if_pos rfl]
    · have hsame := hharmless.unpublished
      rw [hshared, hcache] at hsame
      have hcacheSame : SharedCache.published (offered env run ctx outcome cache) =
          SharedCache.published cache := Option.some.inj hsame
      rw [offered, if_pos hon] at hcacheSame
      exact (storeShared_published _ _ _ _).1 hcacheSame hstored
  · intro hnot
    constructor
    · rw [hshared]
      cases hcache : before.sharedCache with
      | none => rfl
      | some cache =>
        show some (SharedCache.published (offered env run ctx outcome cache)) = _
        rw [offered]
        split
        · rename_i hon
          exact congrArg some ((storeShared_published _ _ _ _).2 fun hstored =>
            hnot (.inr ⟨hon, cache, hcache, hstored⟩))
        · rfl
    · intro record hrecord
      rw [hlocal, written, if_neg fun hwrites => hnot (.inl hwrites)] at hrecord
      cases hrecord

theorem harmless_iff {outcomeRes : Except ExecutorError TaskRunOutcome}
    (hctx : run.cacheWrite = some ctx) :
    Harmless env run ctx.taskId outcomeRes before ↔ ¬ Taken env run ctx outcomeRes before := by
  cases hsucceeded : outcomeRes.toOption.any (·.status.success) with
  | false =>
    refine iff_of_true (harmless_of_failed hsucceeded) ?_
    rintro ⟨outcome, rfl, hsuccess, -⟩
    exact absurd (hsucceeded.symm.trans hsuccess) (by decide)
  | true =>
    cases outcomeRes with
    | error e => cases hsucceeded
    | ok outcome =>
      by_cases hbuilds : Builds env ctx outcome
      · rw [harmless_iff_of_builds hctx hsucceeded hbuilds, not_iff_not]
        constructor
        · exact fun h => ⟨outcome, rfl, hsucceeded, hbuilds, h⟩
        · rintro ⟨outcome', heq, -, -, h⟩
          obtain rfl := Except.ok.inj heq
          exact h
      · refine iff_of_true (harmless_of_not_builds hctx hsucceeded hbuilds) ?_
        rintro ⟨outcome', heq, -, h, -⟩
        obtain rfl := Except.ok.inj heq
        exact hbuilds h

/-- A disk without a repository, on which a walk comes across what it cannot read. -/
def brokenDisk : Disk :=
  { sampleEnv.disk with
    discover := fun _ => .error (.Git "not a git repository")
    walk := fun _ => [⟨[⟨"a.js", by decide⟩], .error (.WalkDir "permission denied")⟩] }

def brokenEnv : RunEnv := { sampleEnv with disk := brokenDisk }

def sourcesWrite : CacheWriteContext :=
  { sampleWrite with
    taskDef := { TaskDefinition.new [] 1 with inputs := ["src/*.ts"], outputs := ["dist/**"] }
    preSnapshot := none }

end Luchta.Proof.Dispatch
