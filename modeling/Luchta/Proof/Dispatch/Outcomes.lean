import Luchta.Framework.Fallible
import Luchta.Impl.RunRecord
import Luchta.Proof.Walker.Driver

/-!
# What a worker's exit code leads to

* `synthesizeExitStatus_success`: the status of a code only has its low byte.
* `failed_unpublished`: a run that failed leaves the shared cache alone and no record of a success.
* `succeeded_counts`: a run that succeeded counts as such, or its recording failed.
* `done_outcome`: what the code of a `Done` leads to.
-/

namespace Luchta.Proof.Dispatch

open Luchta.Framework Luchta.Impl Luchta.Proof.Walker
open Relation (TransGen)

/-! ## Exit codes -/

theorem low_byte (x : BitVec 32) : (x &&& 255#32) <<< 8 = 0#32 ↔ x.toNat % 256 = 0 := by
  have hand : (x &&& 255#32).toNat = x.toNat % 256 := by
    rw [BitVec.toNat_and]
    exact Nat.and_two_pow_sub_one_eq_mod x.toNat 8
  rw [← BitVec.toNat_inj, BitVec.toNat_shiftLeft, hand, Nat.shiftLeft_eq]
  have hlt := Nat.mod_lt x.toNat (show 256 > 0 by decide)
  rw [Nat.mod_eq_of_lt (by omega)]
  show x.toNat % 256 * 2 ^ 8 = 0 ↔ _
  omega

theorem toInt_mod (x : BitVec 32) : x.toInt % 256 = 0 ↔ x.toNat % 256 = 0 := by
  have h := x.isLt
  rw [BitVec.toInt_eq_toNat_cond]
  split <;> omega

theorem synthesizeExitStatus_success (code : Int32) :
    (synthesizeExitStatus code).success = true ↔ code.toInt % 256 = 0 := by
  rw [ExitStatus.success, decide_eq_true_eq, synthesizeExitStatus]
  show (code &&& 255) <<< 8 = 0 ↔ code.toBitVec.toInt % 256 = 0
  rw [toInt_mod, ← low_byte, ← Int32.toBitVec_inj]
  rfl

/-! ## What a run leaves behind -/

/-- Nothing was published, and the successes that are on record were so before. -/
def Unpublished (before after : RunState) : Prop :=
  after.sharedCache = before.sharedCache ∧ ∀ key record, after.records.lookup key = some record →
    record.succeeded = true → before.records.lookup key = some record

variable {env : RunEnv} {ctx : CacheWriteContext} {run : SpawnedTaskRun} {before : RunState}

theorem Unpublished.refl (s : RunState) : Unpublished s s := ⟨rfl, fun _ _ h _ => h⟩

theorem registerTaskWatchState_keeps (record : TaskRunRecord) (entries : List FileEntry)
    (expectation : String) : Keeps (Unpublished before)
      (registerTaskWatchStateWithInputs env ctx record entries expectation) := by
  rw [registerTaskWatchStateWithInputs]
  split
  · exact .modify fun s hs => hs
  · exact .throw fun s hs => hs

/-- The record says of a run what it is told. -/
theorem recordResolved_spec (args : BuildRunRecordArgs) (postInputs : List FileEntry) :
    Triple (Unpublished before) (recordResolved env ctx args postInputs)
      (fun r s => Unpublished before s ∧ ∀ record, r = .Ok record → record.succeeded = args.succeeded)
      (Unpublished before) := by
  rw [recordResolved]
  show Triple _ (if args.succeeded then _ else _) _ _
  split
  · rw [buildSuccessfulRunRecord]
    split
    · exact .pure fun s hs => ⟨hs, nofun⟩
    · refine (registerTaskWatchState_keeps _ _ _).bind fun _ => .pure fun s hs => ⟨hs, ?_⟩
      rintro _ ⟨⟩
      rfl
  · refine (registerTaskWatchState_keeps _ _ _).bind fun _ => .pure fun s hs => ⟨hs, ?_⟩
    rintro _ ⟨⟩
    rfl

theorem buildRunRecord_spec (args : BuildRunRecordArgs) :
    Triple (Unpublished before) (buildRunRecord env ctx args)
      (fun r s => Unpublished before s ∧ ∀ record, r = .Ok record → record.succeeded = args.succeeded)
      (Unpublished before) := by
  rw [buildRunRecord]
  split
  · exact .pure fun s hs => ⟨hs, nofun⟩
  · exact recordResolved_spec args _
  · exact recordResolved_spec args []

/-- `store_preflight` and its sibling for advisory files both ask whether the run succeeded. -/
theorem store_not_succeeded {request : SharedCacheStoreRequest} {io : StoreIo} {ms : UInt64}
    (h : request.record.succeeded = false) (shared : SharedCache) :
    (storeWithExecutionDuration io request ms shared).2 = shared := by
  have hpre : storePreflight shared.minStoreDurationMs request ms = .ok (some .SkippedNotSucceeded) := by
    simp [storePreflight, h]
  rw [storeWithExecutionDuration, bind_run]
  show ((if shared.writeBucketKey.isNone = true then _ else _ : SharedM StoreOutcome) shared).2 = _
  split
  · rfl
  · rw [storeInternal, bind_run]
    show ((liftM (storePreflight shared.minStoreDurationMs request ms) >>= _ : SharedM _) shared).2 = _
    rw [hpre]
    rfl

theorem advisoryRequest_not_succeeded {record : TaskRunRecord} (h : record.succeeded = false)
    (repoRoot : Path) : advisoryRequest env ctx repoRoot record = none := by
  simp [advisoryRequest, h]

theorem storeShared_not_succeeded {record : TaskRunRecord} (h : record.succeeded = false)
    (repoRoot : Path) (logs : CapturedLogs) (ms : UInt64) (shared : SharedCache) :
    (storeShared env ctx repoRoot record logs ms shared).2 = shared := by
  show publishAdvisoryCacheFiles env ctx repoRoot record ms _ = shared
  rw [publishAdvisoryCacheFiles, advisoryRequest_not_succeeded h]
  exact store_not_succeeded h shared

theorem writeShared_keeps {record : TaskRunRecord} (h : record.succeeded = false)
    (p : PersistArgs) : Keeps (Unpublished before) (writeShared env ctx p record) := by
  refine .get fun s hs => ?_
  split
  · exact .pure fun s' heq => heq ▸ hs
  · rename_i shared hshared
    have hsome : s.sharedCache = some shared := (Option.filter_eq_some_iff.1 hshared).1
    refine .bind (Q := fun _ => Unpublished before) (.modify fun s' heq => ?_) fun _ =>
      .pure fun s' hs' => hs'
    subst s'
    refine ⟨?_, hs.2⟩
    show some (storeShared env ctx p.repoRoot record p.logs p.executionDurationMs shared).2 = _
    rw [storeShared_not_succeeded h, ← hsome, hs.1]

theorem writeLocal_keeps {record : TaskRunRecord} (h : record.succeeded = false) :
    Keeps (Unpublished before) (writeLocal env ctx record) := by
  refine .modify fun s hs => ?_
  split
  · refine ⟨hs.1, fun key r hr hsucc => ?_⟩
    rw [HashMap.lookup_insert_if] at hr
    split at hr
    · obtain rfl := Option.some.inj hr
      simp [h] at hsucc
    · exact hs.2 key r hr hsucc
  · exact hs

theorem writeRunRecord_keeps {p : PersistArgs} (h : p.args.succeeded = false) :
    Keeps (Unpublished before) (writeRunRecord env ctx p) := by
  refine (buildRunRecord_spec p.args).bind fun r => ?_
  split
  · exact .pure fun s hs => hs.1
  · exact .pure fun s hs => hs.1
  · rename_i record
    refine Triple.conseq (P := fun s => Unpublished before s ∧ record.succeeded = false) ?_
      (fun s hs => ⟨hs.1, (hs.2 record rfl).trans h⟩) (fun _ _ hs => hs) fun _ hs => hs
    intro s hs
    refine Triple.bind (Q := fun _ => Unpublished before) (.modify fun s hs => hs) (fun _ => ?_) s hs.1
    exact (writeLocal_keeps hs.2).bind fun _ => writeShared_keeps hs.2 p

theorem persistCacheState_keeps (outcome : Option TaskRunOutcome) :
    Keeps (Unpublished before) (persistCacheState env run outcome false) := by
  rw [persistCacheState]
  split
  · rw [persistCacheWrite]
    split
    · exact .pure fun s hs => hs
    · exact (writeRunRecord_keeps rfl).bind fun _ => .pure fun s hs => hs
  · split
    · exact .pure fun s hs => hs
    · exact .pure fun s hs => hs

/-- A run that failed leaves the shared cache alone and no record of a success. -/
theorem failed_unpublished {outcomeRes : Except ExecutorError TaskRunOutcome}
    (h : outcomeRes.toOption.any (·.status.success) = false) :
    Triple (Unpublished before) (runTaskAndPersistCache env run outcomeRes)
      (fun succeeded s => succeeded = false ∧ Unpublished before s) (Unpublished before) := by
  rw [runTaskAndPersistCache]
  simp only [h]
  refine (persistCacheState_keeps _).bind fun e => .pure fun s hs => ⟨?_, hs⟩
  cases e <;> rfl

/-! ## Successes -/

/-- The inputs cannot be recorded. -/
def InputsFail (env : RunEnv) (run : SpawnedTaskRun) : Prop :=
  ∃ ctx message, run.cacheWrite = some ctx ∧
    resolveCacheInputs env ctx ctx.taskDef.inputs = .ExpansionError message

/-- The record of a run that succeeded, with the inputs as they were before. -/
def successRecord (env : RunEnv) (run : SpawnedTaskRun) (outcome : TaskRunOutcome)
    (ctx : CacheWriteContext) : TaskRunRecord :=
  let (outputPatterns, detected) := effectiveOutputPatterns ctx.taskDef (some outcome)
  assembleRunRecord env { ctx with startUnixMs := run.startUnixMs }
    ⟨some outcome, true, run.endUnixMs,
      if ctx.decision.action = .Run then some ctx.decision.runReason else none⟩
    ⟨ctx.taskDef.inputs, outputPatterns, detected⟩ ctx.snapshot

/-- The shared cache refuses the record for good, as it does when an output leaves the repository. -/
def StoreRefuses (env : RunEnv) (run : SpawnedTaskRun) (outcome : TaskRunOutcome)
    (before : RunState) : Prop :=
  ∃ ctx shared e, run.cacheWrite = some ctx ∧ before.sharedCache = some shared ∧
    (storeWithExecutionDuration env.io
      (storeRequest env ctx run.repoRoot (successRecord env run outcome ctx) run.logs)
      run.executionDurationMs shared).1 = .error e ∧ e.kind = .InvalidData

/-- The patterns of the record are globs for the watcher. -/
def GlobsCompile (env : RunEnv) (run : SpawnedTaskRun) (outcome : TaskRunOutcome) : Prop :=
  ∀ ctx, run.cacheWrite = some ctx → ∀ patterns,
    patterns = ctx.taskDef.inputs ∨ patterns = (effectiveOutputPatterns ctx.taskDef (some outcome)).1 →
      ∃ globset, buildWatchGlobset env patterns = .ok globset

theorem registerTaskWatchState_ok {record : TaskRunRecord} {shared : Option SharedCache}
    (hinputs : ∃ g, buildWatchGlobset env record.inputPatterns = .ok g)
    (houtputs : ∃ g, buildWatchGlobset env record.outputPatterns = .ok g)
    (entries : List FileEntry) (expectation : String) :
    Triple (fun s => s.sharedCache = shared)
      (registerTaskWatchStateWithInputs env ctx record entries expectation)
      (fun _ s => s.sharedCache = shared) fun _ => False := by
  obtain ⟨inputs, hinputs⟩ := hinputs
  obtain ⟨outputs, houtputs⟩ := houtputs
  rw [registerTaskWatchStateWithInputs, hinputs, houtputs]
  exact .modify fun s hs => hs

theorem checkInputStability_ok {pre post entries : List FileEntry} {taskId : TaskId}
    (h : checkInputStability pre post taskId = .ok entries) : entries = pre := by
  unfold checkInputStability at h
  split at h
  split at h
  · cases h
  · exact (Except.ok.inj h).symm

variable {outcome : TaskRunOutcome}

/-- What the record of the run is built from. -/
def successArgs (run : SpawnedTaskRun) (outcome : TaskRunOutcome) (ctx : CacheWriteContext) :
    BuildRunRecordArgs :=
  ⟨some outcome, true, run.endUnixMs,
    if ctx.decision.action = .Run then some ctx.decision.runReason else none⟩

theorem buildRunRecord_success (hctx : run.cacheWrite = some ctx)
    (hglobs : GlobsCompile env run outcome) (shared : Option SharedCache) :
    Triple (fun s => s.sharedCache = shared)
      (buildRunRecord env { ctx with startUnixMs := run.startUnixMs } (successArgs run outcome ctx))
      (fun r s => InputsFail env run ∧ (∃ message, r = .ExpansionError message) ∨
        s.sharedCache = shared ∧ ((∃ reason, r = .StabilityMismatch reason) ∨
          r = .Ok (successRecord env run outcome ctx))) fun _ => False := by
  have hresolved : ∀ postInputs, Triple (fun s : RunState => s.sharedCache = shared)
      (recordResolved env { ctx with startUnixMs := run.startUnixMs } (successArgs run outcome ctx)
        postInputs)
      (fun r s => InputsFail env run ∧ (∃ message, r = .ExpansionError message) ∨
        s.sharedCache = shared ∧ ((∃ reason, r = .StabilityMismatch reason) ∨
          r = .Ok (successRecord env run outcome ctx))) fun _ => False := by
    intro postInputs
    rw [recordResolved]
    show Triple _ (buildSuccessfulRunRecord env _ _ _ postInputs) _ _
    rw [buildSuccessfulRunRecord]
    split
    · exact .pure fun s hs => .inr ⟨hs, .inl ⟨_, rfl⟩⟩
    · rename_i entries hstable
      obtain rfl := checkInputStability_ok hstable
      refine (registerTaskWatchState_ok (hglobs ctx hctx _ (.inl rfl))
        (hglobs ctx hctx _ (.inr rfl)) _ _).bind fun _ => ?_
      exact .pure fun s hs => .inr ⟨hs, .inr rfl⟩
  rw [buildRunRecord]
  split
  · rename_i message hfail
    exact .pure fun s hs => .inl ⟨⟨ctx, message, hctx, hfail⟩, message, rfl⟩
  · exact hresolved _
  · exact hresolved []

theorem writeShared_success {record : TaskRunRecord} {p : PersistArgs} {shared : Option SharedCache} :
    Triple (fun s => s.sharedCache = shared) (writeShared env ctx p record)
      (fun r _ => cacheWriteError r = none ∨ ∃ cache e, shared = some cache ∧
        (storeWithExecutionDuration env.io (storeRequest env ctx p.repoRoot record p.logs)
          p.executionDurationMs cache).1 = .error e ∧ e.kind = .InvalidData) fun _ => False := by
  refine .get fun s hs => ?_
  split
  · exact .pure fun _ _ => .inl rfl
  · rename_i cache hcache
    have hsome : shared = some cache := hs ▸ (Option.filter_eq_some_iff.1 hcache).1
    refine .bind (Q := fun _ _ => True) (.modify fun _ _ => trivial) fun _ => .pure fun _ _ => ?_
    show cacheWriteError ((fatalStoreError ctx.taskId.toString (storeWithExecutionDuration env.io
      (storeRequest env ctx p.repoRoot record p.logs) p.executionDurationMs cache).1).elim _ _) = _ ∨ _
    cases hstore : (storeWithExecutionDuration env.io
      (storeRequest env ctx p.repoRoot record p.logs) p.executionDurationMs cache).1 with
    | ok outcome => exact .inl rfl
    | error e =>
      rw [fatalStoreError]
      split
      · rename_i hkind
        exact .inr ⟨cache, e, hsome, hstore, hkind⟩
      · exact .inl rfl

theorem writeRecord_success (hctx : run.cacheWrite = some ctx) (p : PersistArgs)
    (hlogs : p.logs = run.logs) (hroot : p.repoRoot = run.repoRoot)
    (hms : p.executionDurationMs = run.executionDurationMs) :
    Triple (fun s => s.sharedCache = before.sharedCache)
      (do
        let record := successRecord env run outcome ctx
        modify fun s => { s with outputHashes := s.outputHashes.insert ctx.taskId record.outputsHash }
        writeLocal env { ctx with startUnixMs := run.startUnixMs } record
        writeShared env { ctx with startUnixMs := run.startUnixMs } p record)
      (fun r _ => cacheWriteError r = none ∨ StoreRefuses env run outcome before) fun _ => False := by
  refine Triple.bind (Q := fun _ s => s.sharedCache = before.sharedCache)
    (.modify fun s hs => hs) fun _ => ?_
  refine Triple.bind (Q := fun _ s => s.sharedCache = before.sharedCache)
    (.modify fun s hs => ?_) fun _ => ?_
  · split <;> exact hs
  · refine writeShared_success.conseq (fun s hs => hs) (fun r s h => ?_) fun _ h => h
    apply h.imp_right
    intro ⟨cache, e, hcache, hstore, hkind⟩
    rw [hlogs, hroot, hms] at hstore
    exact ⟨ctx, cache, e, hctx, hcache, hstore, hkind⟩

theorem recordResolvedOutputHash_total (record : OutputHashRecordContext) :
    Triple (fun _ => True) (recordResolvedOutputHash env record) (fun _ _ => True)
      fun _ => False := by
  rw [recordResolvedOutputHash]
  split
  · exact .modify fun _ _ => trivial
  · exact .pure fun _ _ => trivial

theorem persistCacheState_success (hglobs : GlobsCompile env run outcome) :
    Triple (· = before) (persistCacheState env run (some outcome) true)
      (fun e _ => e = none ∨ InputsFail env run ∨ StoreRefuses env run outcome before)
      fun _ => False := by
  rw [persistCacheState]
  split
  · rename_i ctx hctx
    refine Triple.bind (Q := fun r _ => cacheWriteError r = none ∨ InputsFail env run ∨
      StoreRefuses env run outcome before) ?_ fun r => .pure fun s hs => hs
    refine ((buildRunRecord_success hctx hglobs before.sharedCache).conseq
      (fun s hs => by rw [hs]) (fun _ _ h => h) fun _ h => h).bind fun r => ?_
    split
    · refine .pure fun s hs => ?_
      obtain ⟨hfail, -⟩ | ⟨-, ⟨reason, h⟩ | h⟩ := hs
      · exact .inr (.inl hfail)
      · cases h
      · cases h
    · exact .pure fun s hs => .inl rfl
    · rename_i record
      intro s hs
      obtain ⟨-, message, h⟩ | ⟨hshared, ⟨reason, h⟩ | h⟩ := hs
      · cases h
      · cases h
      obtain rfl := BuildRecordResult.Ok.inj h
      refine (writeRecord_success hctx _ rfl rfl rfl).conseq (fun s hs => hs)
        (fun _ _ h => ?_) (fun _ h => h) s hshared
      exact h.imp_right .inr
  · split
    · rw [if_pos rfl]
      exact ((recordResolvedOutputHash_total _).conseq (fun _ _ => trivial) (fun _ _ h => h)
        fun _ h => h).bind fun _ => .pure fun _ _ => .inl rfl
    · exact .pure fun _ _ => .inl rfl

/-- A run that succeeded counts as such, or it says which part of the recording failed. -/
theorem succeeded_counts (h : outcome.status.success = true)
    (hglobs : GlobsCompile env run outcome) :
    Triple (· = before) (runTaskAndPersistCache env run (.ok outcome))
      (fun succeeded _ => succeeded = true ∨ InputsFail env run ∨
        StoreRefuses env run outcome before) fun _ => False := by
  have hsucceeded : (Except.ok outcome : Except ExecutorError _).toOption.any (·.status.success) = true := h
  rw [runTaskAndPersistCache]
  simp only [hsucceeded]
  refine (persistCacheState_success hglobs).bind fun e => .pure fun s hs => ?_
  apply hs.imp_left
  intro he
  subst he
  rfl

/-- What a `Done` of a worker comes to: a run whose code has a low byte is a failure, and nothing of
it is recorded as a success or handed on; a run whose code is 0 is a success, unless its inputs
cannot be recorded or the shared cache refuses it for good. -/
theorem done_outcome (env : RunEnv) (run : SpawnedTaskRun) (before : RunState) (exitCode : Int32)
    (detected : Option (List String)) :
    let outcome : TaskRunOutcome := .worker ⟨exitCode, detected⟩
    let r := runTaskAndPersistCache env run (.ok outcome) before
    (exitCode.toInt % 256 ≠ 0 → completion r = false ∧ Unpublished before r.2 ∧
      ∀ (ts : Toposort TaskNode) (rs : RandomState) (g : TaskGraph) (d : Driver) (i j : Nat),
        g.graph.Acyclic → Reachable (walkerSystem ts rs g) d →
        .answered i (completion r) ∈ d.log → TransGen g.graph.Edge j i → .emitted j ∉ d.log) ∧
    (exitCode = 0 → GlobsCompile env run outcome →
      completion r = true ∨ InputsFail env run ∨ StoreRefuses env run outcome before) := by
  intro outcome r
  constructor
  · intro hcode
    have hfailed : outcome.status.success = false := by
      rw [← Bool.not_eq_true]
      exact fun h => hcode ((synthesizeExitStatus_success exitCode).1 h)
    have htriple : Triple (Unpublished before) (runTaskAndPersistCache env run (.ok outcome)) _ _ :=
      failed_unpublished hfailed
    have hrun := htriple before (.refl before)
    have hboth : completion r = false ∧ Unpublished before r.2 := by
      show completion (runTaskAndPersistCache env run (.ok outcome) before) = false ∧
        Unpublished before (runTaskAndPersistCache env run (.ok outcome) before).2
      cases hr : runTaskAndPersistCache env run (.ok outcome) before with
      | mk result s =>
        rw [hr] at hrun
        cases result with
        | ok succeeded => exact hrun
        | error message => exact ⟨rfl, hrun⟩
    refine ⟨hboth.1, hboth.2, fun ts rs g d i j hg hd hans hji => ?_⟩
    rw [hboth.1] at hans
    exact Walker.not_emitted_of_failed (reachable_inv hg hd) hans hji
  · intro hcode hglobs
    have hsuccess : outcome.status.success = true :=
      (synthesizeExitStatus_success exitCode).2 (by rw [hcode]; decide)
    have hrun := succeeded_counts hsuccess hglobs before rfl
    show completion (runTaskAndPersistCache env run (.ok outcome) before) = true ∨ _
    cases hr : runTaskAndPersistCache env run (.ok outcome) before with
    | mk result s =>
      rw [hr] at hrun
      cases result with
      | ok succeeded => exact hrun
      | error message => exact hrun.elim

/-! ## A task of one package -/

def sampleDigest : Digest := .replicate 32 0

/-- A disk on which every path is a file, and libraries that match literally. -/
def sampleEnv : RunEnv where
  toposort := .kahn
  order := .id
  globs := ⟨fun pattern => .ok (· = pattern), fun globs => .ok fun path => globs.any (· path)⟩
  plainGlob pattern := if pattern = "[" then .error "unclosed character class" else .ok (· = pattern)
  blake3 := fun _ => sampleDigest
  disk := {
    discover := fun _ => .ok (.ofStr "/repo")
    openRepo := fun _ => .ok ⟨.ofStr "/repo/.git", fun _ => .ok false⟩
    walk := fun _ => []
    metadata := fun _ => .ok (some ⟨1, 0⟩)
    blake3File := fun _ => .ok sampleDigest
    canonicalize := some }
  io := {
    encodeRecord := fun _ => .ok []
    encodeEntryMeta := fun _ => .ok []
    entryMetaResidentBytes := fun _ => 0
    writeEntryMeta := fun _ _ => .ok ()
    writeOutputsBlob := fun _ _ _ _ => .ok .Written
    writeCacheFileBlob := fun _ _ _ _ => .ok .Written }
  localWrites := true

def sampleWrite : CacheWriteContext where
  taskId := ⟨⟨"app"⟩, ⟨"build"⟩⟩
  inputsFromWorker := false
  taskDef := .new [] 1
  packagePath := .ofStr "/repo/app"
  depOutputs := BTreeMap.ofList []
  taskSpecHash := sampleDigest
  envHash := sampleDigest
  pkgDepHash := sampleDigest
  startUnixMs := 0
  repoRoot := .ofStr "/repo"
  sourcePkg := ⟨"app"⟩
  packageGraph := .ofNodes [⟨⟨"app"⟩, "/repo/app"⟩] [] none (by decide) (by decide)
  cacheNonce := none
  decision := ⟨.Run, .NoPriorRecord⟩
  preSnapshot := some []

def sampleRun : SpawnedTaskRun where
  cacheEnabled := true
  noCache := false
  repoRoot := .ofStr "/repo"
  cacheWrite := some sampleWrite
  outputHashRecord := none
  startUnixMs := 0
  endUnixMs := 1
  executionDurationMs := 1
  interrupted := false
  logs := ⟨[], [], []⟩

def sampleState : RunState :=
  ⟨∅, ∅, ∅, some ⟨some "bucket", 0, 1000, ∅, [], [], []⟩⟩

def sampleDone (exitCode : Int32) (detected : Option (List String)) : Except String Bool × RunState :=
  runTaskAndPersistCache sampleEnv sampleRun (.ok (.worker ⟨exitCode, detected⟩)) sampleState

/-- Whether a success is on record, locally and in the shared cache. -/
def successRecorded (s : RunState) : Bool × Bool :=
  ((s.records.lookup "app#build").any (·.succeeded),
    s.sharedCache.any fun shared => shared.pendingEntries.entries ≠ [])

/-- `lib#build` is handed out and fails. -/
theorem chain_fails : ∃ d, Reachable (walkerSystem .kahn .id chain) d ∧
    d.log = [.emitted 1, .answered 1 false] := by
  have hinit : ∃ w, WalkerState.fromGraph .kahn .id chain = some w ∧
      ((walkerSystem .kahn .id chain).run (fun _ _ => True) (.init .id w)
        [.takeNext, .send, .recv, .answer 1 false]).map (·.log) =
          some [.emitted 1, .answered 1 false] := by
    refine ⟨(WalkerState.fromGraph .kahn .id chain).get (by decide +kernel), by simp, ?_⟩
    decide +kernel
  obtain ⟨w, hw, hrun⟩ := hinit
  obtain ⟨d, hd, hlog⟩ := Option.map_eq_some_iff.1 hrun
  exact ⟨d, Reach.run (.init ⟨w, hw, rfl⟩) hd, hlog⟩

/-- The task `lib#build` that comes back with the code 1, and one that comes back with 0. -/
theorem done_outcome_sample :
    (completion (sampleDone 1 none) = false ∧ Unpublished sampleState (sampleDone 1 none).2 ∧
      ∃ d, Reachable (walkerSystem .kahn .id chain) d ∧ .answered 1 false ∈ d.log ∧
        .emitted 0 ∉ d.log) ∧
    (completion (sampleDone 0 none) = true ∨ InputsFail sampleEnv sampleRun ∨
      StoreRefuses sampleEnv sampleRun (.worker ⟨0, none⟩) sampleState) := by
  constructor
  · obtain ⟨hfalse, hunpublished, habove⟩ :=
      (done_outcome sampleEnv sampleRun sampleState 1 none).1 (by decide)
    obtain ⟨d, hd, hlog⟩ := chain_fails
    have hans : .answered 1 false ∈ d.log := by simp [hlog]
    refine ⟨hfalse, hunpublished, d, hd, hans, ?_⟩
    exact habove .kahn .id chain d 1 0 (Toposort.kahn.ok_iff.1 ⟨[0, 1], by decide⟩) hd
      (hfalse ▸ hans) (.single (by decide))
  · apply (done_outcome sampleEnv sampleRun sampleState 0 none).2 rfl
    rintro ctx hctx patterns hpatterns
    obtain rfl := Option.some.inj hctx
    obtain rfl | rfl := hpatterns
    · exact ⟨_, rfl⟩
    · exact ⟨_, rfl⟩

/-- The code 256 is recorded as a success. An output above the repository turns the code 0 into a
failure, and so does one that is no glob, which makes the runner panic. -/
theorem done_misread :
    completion (sampleDone 256 none) = true ∧
      successRecorded (sampleDone 256 none).2 = (true, true) ∧
      completion (sampleDone 0 (some ["../../secret"])) = false ∧
      resolveCacheInputs sampleEnv sampleWrite [] = .Ok [] ∧
      (sampleDone 0 (some ["["])).1 =
        .error "run task watch registration should compile globs" := by
  refine ⟨?_, ?_, ?_, ?_, ?_⟩
  · decide +kernel
  · decide +kernel
  · decide +kernel
  · rfl
  · rfl

end Luchta.Proof.Dispatch
