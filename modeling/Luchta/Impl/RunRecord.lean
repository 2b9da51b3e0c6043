import Luchta.Impl.Decide
import Luchta.Impl.ResolveOutputs
import Luchta.Impl.SharedStore
import Luchta.Impl.WorkerProtocol

/-!
# Recording a run

What follows when a task has run: its inputs are resolved again and compared with the snapshot taken
before, a record is assembled, and record and outputs go into the local and into the shared cache.
Whether the task succeeded is signalled after that.

* `buildRunRecord`, `writeRunRecord`: the record of a run.
* `runTaskAndPersistCache`: from the outcome of a task to its completion signal.

Left out: what is only printed.
-/

namespace Luchta.Impl

open Luchta.Framework

/-! ## Outcomes -/

/-- A wait status. -/
structure ExitStatus where
  raw : Int32
  deriving DecidableEq

def ExitStatus.success (s : ExitStatus) : Bool := s.raw = 0

/-- The exit code, where the process was not killed by a signal. -/
def ExitStatus.code (s : ExitStatus) : Option Int32 :=
  if s.raw &&& 0x7f = 0 then some ((s.raw >>> 8) &&& 0xff) else none

def synthesizeExitStatus (code : Int32) : ExitStatus := ⟨(code &&& 0xff) <<< 8⟩

structure WorkerDonePayload where
  exitCode : Int32
  detectedOutputs : Option (List String)

def WorkerResponse.intoDone : WorkerResponse → Option WorkerDonePayload
  | .Done _ exitCode outputs => some ⟨exitCode, outputs⟩
  | _ => none

structure TaskRunOutcome where
  status : ExitStatus
  detectedOutputs : Option (List String)

def TaskRunOutcome.worker (done : WorkerDonePayload) : TaskRunOutcome :=
  ⟨synthesizeExitStatus done.exitCode, done.detectedOutputs⟩

structure ExecutorError where
  message : String

/-! ## Surroundings -/

structure CapturedLogs where
  stdout : Bytes
  stderr : Bytes
  reports : List EntryReport

/-- The libraries, and the disk as it is at one time. -/
structure RunEnv where
  toposort : Toposort PackageNode
  order : RandomState
  globs : GlobLibrary
  /-- `Glob::new`. -/
  plainGlob : String → Except String Glob
  blake3 : Bytes → Digest
  disk : Disk
  io : StoreIo
  /-- Whether the local cache takes a record. -/
  localWrites : Bool

structure InputFingerprint where
  mtimeNs : Int
  size : UInt64
  hash : Digest

structure TaskWatchState where
  package : PackageName
  packageDir : Path
  inputGlobset : Glob
  outputGlobset : Glob
  inputs : HashMap Path InputFingerprint

/-- What the tasks of a run share. -/
structure RunState where
  outputHashes : HashMap TaskId Digest
  taskWatchRegistry : HashMap TaskId TaskWatchState
  /-- The local cache, by cache key. -/
  records : HashMap String TaskRunRecord
  sharedCache : Option SharedCache

/-- A runner that panics says why. -/
abbrev RunM := Action RunState String

/-! ## Contexts -/

structure CacheDecisionContext where
  action : Decide.Decision
  runReason : RunReason

structure CacheWriteContext where
  taskId : TaskId
  inputsFromWorker : Bool
  taskDef : TaskDefinition
  packagePath : Path
  depOutputs : BTreeMap String Digest
  taskSpecHash : Digest
  envHash : Digest
  pkgDepHash : Digest
  startUnixMs : UInt64
  repoRoot : Path
  sourcePkg : PackageName
  packageGraph : PackageGraph
  cacheNonce : Option String
  decision : CacheDecisionContext
  preSnapshot : Option (List FileEntry)

/-- The accessor: empty until the snapshot is taken. -/
def CacheWriteContext.snapshot (ctx : CacheWriteContext) : List FileEntry := ctx.preSnapshot.getD []

structure OutputHashRecordContext where
  taskId : TaskId
  packagePath : Path
  outputPatterns : List String

def OutputHashRecordContext.withEffectivePatterns (record : OutputHashRecordContext)
    (outcome : Option TaskRunOutcome) : OutputHashRecordContext :=
  match outcome.bind (·.detectedOutputs) with
  | some detected => { record with outputPatterns := detected }
  | none => record

section Record

variable (env : RunEnv)

/-! ## Snapshots -/

/-- A failure yields an empty baseline. -/
def resolvePreExecutionInputs (ctx : CacheWriteContext) : List FileEntry :=
  match expandInputPatterns env.toposort env.order ctx.taskDef.inputs ctx.sourcePkg ctx.packageGraph
      ctx.repoRoot with
  | .error _ => []
  | .ok requests =>
    match resolveInputsWithSemantics env.disk env.globs requests with
    | .ok entries => entries
    | .error _ => []

def CacheWriteContext.capturePreExecutionSnapshot (ctx : CacheWriteContext) : CacheWriteContext :=
  if ctx.preSnapshot.isSome then ctx
  else { ctx with preSnapshot := some (resolvePreExecutionInputs env ctx) }

def deltaSummary (d : FileDelta) : String :=
  if d.priorAbsent && !d.currentAbsent then d.path ++ " (new file)"
  else if !d.priorAbsent && d.currentAbsent then d.path ++ " (deleted)"
  else d.path ++ " (content changed)"

/-- The snapshot, when what is there now does not differ from it. -/
def checkInputStability (preSnapshot postInputs : List FileEntry) (taskId : TaskId) :
    Except String (List FileEntry) :=
  let (deltas, _, changeCount) := Decide.filesDiff preSnapshot postInputs 10
  if changeCount ≠ 0 then
    let suffix :=
      if 5 < changeCount then " and " ++ toString (changeCount - 5) ++ " more" else ""
    .error ("task '" ++ taskId.toString ++ "' declared inputs changed during execution: " ++
      ", ".intercalate ((deltas.take 5).map deltaSummary) ++ suffix ++ " — skipping cache write")
  else .ok preSnapshot

inductive CacheInputResult
  | Ok (entries : List FileEntry)
  | ExpansionError (message : String)
  | IoError

def inputOriginClause (inputsFromWorker : Bool) : String :=
  if inputsFromWorker then "returned by the worker" else "declared in the task spec"

def InputExpansionError.pattern : InputExpansionError → String
  | UnknownPackage _ pattern | PathEscape _ pattern | InvalidPattern _ pattern _ => pattern

def resolveCacheInputs (ctx : CacheWriteContext) (inputPatterns : List String) :
    CacheInputResult :=
  match expandInputPatterns env.toposort env.order inputPatterns ctx.sourcePkg ctx.packageGraph
      ctx.repoRoot with
  | .error e => .ExpansionError ("input \"" ++ e.pattern ++ "\" for task \"" ++
      ctx.taskId.toString ++ "\" (" ++ inputOriginClause ctx.inputsFromWorker ++ "): " ++ e.message)
  | .ok requests =>
    match resolveInputsWithSemantics env.disk env.globs requests with
    | .ok inputs => .Ok inputs
    | .error _ => .IoError

def resolveCacheOutputs (ctx : CacheWriteContext) (outputPatterns : List String) :
    Option (List FileEntry) :=
  (resolveOutputs env.disk env.globs ctx.packagePath outputPatterns).toOption

/-! ## Watch state -/

def buildWatchGlobset (patterns : List String) : Except String Glob := do
  let built ← patterns.mapM env.plainGlob
  env.globs.buildSet built

def fingerprints (packageDir : Path) (entries : List FileEntry) : HashMap Path InputFingerprint :=
  .ofList ((entries.filter (!·.absent)).map fun entry =>
    (packageDir.join (.ofStr entry.path), ⟨entry.mtimeNs, entry.size, entry.hash⟩))

/-- Patterns that do not compile are a panic at the callers. -/
def registerTaskWatchStateWithInputs (ctx : CacheWriteContext) (record : TaskRunRecord)
    (inputEntries : List FileEntry) (expectation : String) : RunM Unit :=
  match buildWatchGlobset env record.inputPatterns, buildWatchGlobset env record.outputPatterns with
  | .ok inputGlobset, .ok outputGlobset => modify fun s => { s with
      taskWatchRegistry := s.taskWatchRegistry.insert ctx.taskId {
        package := ctx.sourcePkg
        packageDir := ctx.packagePath
        inputGlobset := inputGlobset
        outputGlobset := outputGlobset
        inputs := fingerprints ctx.packagePath inputEntries } }
  | _, _ => throw expectation

/-! ## Records -/

structure BuildRunRecordArgs where
  outcome : Option TaskRunOutcome
  succeeded : Bool
  endUnixMs : UInt64
  runReason : Option RunReason

structure RunRecordPatterns where
  inputPatterns : List String
  outputPatterns : List String
  detectedOutputPatterns : Bool

inductive BuildRecordResult
  | Ok (record : TaskRunRecord)
  | ExpansionError (message : String)
  | StabilityMismatch (reason : String)

def SCHEMA_VERSION_V5 : UInt32 := 5

/-- Detected patterns replace the declared ones. -/
def effectiveOutputPatterns (taskDef : TaskDefinition) (outcome : Option TaskRunOutcome) :
    List String × Bool :=
  match outcome.bind (·.detectedOutputs) with
  | some patterns => (patterns, true)
  | none => (taskDef.outputs, false)

def assembleRunRecord (ctx : CacheWriteContext) (args : BuildRunRecordArgs)
    (patterns : RunRecordPatterns) (inputs : List FileEntry) : TaskRunRecord :=
  let outputs := (resolveCacheOutputs env ctx patterns.outputPatterns).getD []
  { schemaVersion := SCHEMA_VERSION_V5
    taskSpecHash := ctx.taskSpecHash
    inputPatterns := patterns.inputPatterns
    inputs := inputs
    outputPatterns := patterns.outputPatterns
    outputs := outputs
    detectedInputPatterns := false
    detectedOutputPatterns := patterns.detectedOutputPatterns
    outputsHash := combinedOutputsHash env.blake3 outputs
    envHash := ctx.envHash
    pkgDepHash := ctx.pkgDepHash
    depOutputs := ctx.depOutputs
    exitStatus := args.outcome.elim 1 fun result => result.status.code.getD 1
    succeeded := args.succeeded
    startUnixMs := ctx.startUnixMs
    endUnixMs := args.endUnixMs
    cacheNonce := ctx.cacheNonce
    runReason := args.runReason }

def buildSuccessfulRunRecord (ctx : CacheWriteContext) (args : BuildRunRecordArgs)
    (patterns : RunRecordPatterns) (postInputs : List FileEntry) : RunM BuildRecordResult :=
  match checkInputStability ctx.snapshot postInputs ctx.taskId with
  | .error reason => return .StabilityMismatch reason
  | .ok stableInputs => do
    let record := assembleRunRecord env ctx args patterns stableInputs
    registerTaskWatchStateWithInputs env ctx record record.inputs
      "run task watch registration should compile globs"
    return .Ok record

/-- The inputs are resolved anew; the snapshot stays the watch baseline of a failed task. -/
def recordResolved (ctx : CacheWriteContext) (args : BuildRunRecordArgs)
    (postInputs : List FileEntry) : RunM BuildRecordResult := do
  let (outputPatterns, detected) := effectiveOutputPatterns ctx.taskDef args.outcome
  let patterns : RunRecordPatterns := ⟨ctx.taskDef.inputs, outputPatterns, detected⟩
  if args.succeeded then buildSuccessfulRunRecord env ctx args patterns postInputs
  else do
    let record := assembleRunRecord env ctx args patterns postInputs
    registerTaskWatchStateWithInputs env ctx record ctx.snapshot
      "failed to register task watch state"
    return .Ok record

def buildRunRecord (ctx : CacheWriteContext) (args : BuildRunRecordArgs) :
    RunM BuildRecordResult :=
  match resolveCacheInputs env ctx ctx.taskDef.inputs with
  | .ExpansionError message => return .ExpansionError message
  | .Ok entries => recordResolved env ctx args entries
  | .IoError => recordResolved env ctx args []

/-! ## Advisory files -/

/-- What the record holds may not be stored as advisory state. -/
def cacheFileEntriesAreDisjoint (packageDir repoRoot : Path) (cacheFiles : List FileEntry)
    (record : TaskRunRecord) : Bool :=
  let occupied := record.inputs.map (fun entry => repoRoot.join (.ofStr entry.path)) ++
    record.outputs.map fun entry => packageDir.join (.ofStr entry.path)
  cacheFiles.all fun entry => packageDir.join (.ofStr entry.path) ∉ occupied

def CACHE_FILE_SCOPE_DOMAIN : Bytes := utf8 "luchta:cache-file-scope:v1"

/-- The task id is length-prefixed. -/
def deriveCacheFileScope (taskId : String) (taskSpecHash envHash pkgDepHash : Digest) : Digest :=
  env.blake3 (CACHE_FILE_SCOPE_DOMAIN ++ encodeBytes (utf8 taskId) ++ taskSpecHash.toList ++
    envHash.toList ++ pkgDepHash.toList)

/-- What `publish_advisory_cache_files` stores, where it does. -/
def advisoryRequest (ctx : CacheWriteContext) (repoRoot : Path) (record : TaskRunRecord) :
    Option CacheFileStoreRequest :=
  if !record.succeeded || ctx.taskDef.cacheFiles.isEmpty then none
  else do
    let entries ← (resolveOutputs env.disk env.globs ctx.packagePath ctx.taskDef.cacheFiles).toOption
    let present := entries.filter (!·.absent)
    if !cacheFileEntriesAreDisjoint ctx.packagePath repoRoot present record then none
    else return {
      scopeHash := deriveCacheFileScope env ctx.taskId.toString ctx.taskSpecHash ctx.envHash
        ctx.pkgDepHash
      upstreamOutputsHash := combinedDepOutputsHash env.blake3 ctx.depOutputs
      packageDir := ctx.packagePath
      relativePaths := present.map fun entry => .ofStr entry.path
      stateHash := if present = [] then none else some (combinedCacheFilesHash env.blake3 present)
      stateBytes := (present.map FileEntry.size).foldl saturatingAdd 0
      record := record
      repoRoot := repoRoot }

def publishAdvisoryCacheFiles (ctx : CacheWriteContext) (repoRoot : Path) (record : TaskRunRecord)
    (executionDurationMs : UInt64) (shared : SharedCache) : SharedCache :=
  match advisoryRequest env ctx repoRoot record with
  | none => shared
  | some request =>
    (storeCacheFilesWithExecutionDuration env.io request executionDurationMs shared).2

/-! ## Writing -/

inductive WriteRecordResult
  | Ok
  | ExpansionError (message : String)
  | StabilityMismatch (reason : String)

def recordInputKey (ctx : CacheWriteContext) (record : TaskRunRecord) : Digest :=
  deriveInputKey env.blake3 ctx.taskSpecHash ctx.envHash ctx.pkgDepHash
    (combinedDepOutputsHash env.blake3 ctx.depOutputs)
    (combinedInputsHash env.blake3 record.inputs)

def storeRequest (ctx : CacheWriteContext) (repoRoot : Path) (record : TaskRunRecord)
    (logs : CapturedLogs) : SharedCacheStoreRequest where
  taskId := ctx.taskId.toString
  toolVersion := ctx.taskDef.toolVersion
  inputKey := recordInputKey env ctx record
  outputsHash := record.outputsHash
  packageDir := ctx.packagePath
  relOutputPaths := (record.outputs.filter (!·.absent)).map fun entry => .ofStr entry.path
  record := record
  stdout := logs.stdout
  stderr := logs.stderr
  reports := logs.reports
  repoRoot := repoRoot

/-- A path that escapes is fatal; every other failure is only reported. -/
def fatalStoreError (taskId : String) : Except IoError StoreOutcome → Option String
  | .ok _ => none
  | .error e =>
    if e.kind = .InvalidData then
      some ("shared cache store failed for task '" ++ taskId ++ "': " ++ e.message)
    else none

/-- The shared part of the write, with its fatal error. -/
def storeShared (ctx : CacheWriteContext) (repoRoot : Path) (record : TaskRunRecord)
    (logs : CapturedLogs) (executionDurationMs : UInt64) (shared : SharedCache) :
    Option String × SharedCache :=
  let (result, shared) := storeWithExecutionDuration env.io (storeRequest env ctx repoRoot record logs)
    executionDurationMs shared
  (fatalStoreError ctx.taskId.toString result,
    publishAdvisoryCacheFiles env ctx repoRoot record executionDurationMs shared)

def writeLocal (ctx : CacheWriteContext) (record : TaskRunRecord) : RunM Unit :=
  modify fun s =>
    if env.localWrites then
      { s with records := s.records.insert ctx.taskId.toString record }
    else s

/-- How a run is to be persisted. -/
structure PersistArgs where
  args : BuildRunRecordArgs
  sharedStoreEnabled : Bool
  repoRoot : Path
  logs : CapturedLogs
  executionDurationMs : UInt64

def writeShared (ctx : CacheWriteContext) (p : PersistArgs) (record : TaskRunRecord) :
    RunM WriteRecordResult := do
  match (← get).sharedCache.filter fun _ => p.sharedStoreEnabled with
  | none => return .Ok
  | some shared => do
    let (fatal, shared) := storeShared env ctx p.repoRoot record p.logs p.executionDurationMs shared
    modify fun s => { s with sharedCache := some shared }
    return fatal.elim .Ok .ExpansionError

def writeRunRecord (ctx : CacheWriteContext) (p : PersistArgs) : RunM WriteRecordResult := do
  match ← buildRunRecord env ctx p.args with
  | .ExpansionError message => return .ExpansionError message
  | .StabilityMismatch reason => return .StabilityMismatch reason
  | .Ok record => do
    modify fun s => { s with outputHashes := s.outputHashes.insert ctx.taskId record.outputsHash }
    writeLocal env ctx record
    writeShared env ctx p record

def cacheWriteError : WriteRecordResult → Option String
  | .Ok | .StabilityMismatch _ => none
  | .ExpansionError message => some message

/-! ## Persisting -/

/-- Errors are skipped here. -/
def recordResolvedOutputHash (record : OutputHashRecordContext) : RunM Unit :=
  match resolveOutputs env.disk env.globs record.packagePath record.outputPatterns with
  | .ok outputs => modify fun s => { s with
      outputHashes := s.outputHashes.insert record.taskId (combinedOutputsHash env.blake3 outputs) }
  | .error _ => pure ()

def persistCacheWrite (ctx : CacheWriteContext) (p : PersistArgs) (persistFailureRecord : Bool) :
    RunM (Option String) :=
  if !p.args.succeeded && !persistFailureRecord then return none
  else do
    let runReason := if ctx.decision.action = .Run then some ctx.decision.runReason else none
    let result ← writeRunRecord env ctx { p with args := { p.args with runReason := runReason } }
    return cacheWriteError result

structure SpawnedTaskRun where
  cacheEnabled : Bool
  noCache : Bool
  repoRoot : Path
  cacheWrite : Option CacheWriteContext
  outputHashRecord : Option OutputHashRecordContext
  startUnixMs : UInt64
  endUnixMs : UInt64
  executionDurationMs : UInt64
  interrupted : Bool
  logs : CapturedLogs

def persistCacheState (run : SpawnedTaskRun) (outcome : Option TaskRunOutcome) (succeeded : Bool) :
    RunM (Option String) :=
  match run.cacheWrite with
  | some ctx =>
    persistCacheWrite env { ctx with startUnixMs := run.startUnixMs } {
      args := ⟨outcome, succeeded, run.endUnixMs, none⟩
      sharedStoreEnabled := run.cacheEnabled && !run.noCache
      repoRoot := run.repoRoot
      logs := run.logs
      executionDurationMs := run.executionDurationMs } (succeeded || !run.interrupted)
  | none =>
    match run.outputHashRecord with
    | some record =>
      if succeeded then do
        recordResolvedOutputHash env (record.withEffectivePatterns outcome)
        return none
      else return none
    | none => return none

/-- A fatal error turns a success into a failure. -/
def finishSpawnedTaskRun (succeeded : Bool) : Option String → Bool
  | some _ => false
  | none => succeeded

/-- The completion signal is sent once this has returned. -/
def runTaskAndPersistCache (run : SpawnedTaskRun)
    (outcomeRes : Except ExecutorError TaskRunOutcome) : RunM Bool := do
  let succeeded := outcomeRes.toOption.any (·.status.success)
  let expansionError ← persistCacheState env run outcomeRes.toOption succeeded
  return finishSpawnedTaskRun succeeded expansionError

end Record

/-- What the walker hears; a runner that panics drops its signal, which counts as a failure. -/
def completion (r : Except String Bool × RunState) : Bool := r.1.toOption.getD false

end Luchta.Impl
