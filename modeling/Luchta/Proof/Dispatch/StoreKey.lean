import Luchta.Proof.Dispatch.FailedResolution
import Luchta.Proof.Resolve.Caches
import Luchta.Proof.Resolve.Matcher
import Mathlib.Data.UInt

/-!
# The key of the lookup and the key of the store

The lookup resolves the inputs through the listings of the run, the store takes them from a snapshot
that is resolved anew. The two keys agree where the listings still select what is on the disk.

* `knownInputs_of_agrees`: listings that select the same files are no loss.
* `store_key_eq`: what a run stores, it stores under the key that was looked up.
-/

namespace Luchta.Proof.Dispatch

open Luchta.Framework Luchta.Impl Luchta.Proof.Resolve

/-! ## Listings that agree with the disk -/

def selects (globset : Glob) (exclusions : Exclusions) (candidate : Path) : Bool :=
  globset candidate.toStr && !exclusions.excludes candidate.toStr

/-- What the run knows selects what a new listing would select. -/
structure ListingAgrees (disk : Disk) (listing : ListingCache) (globs : GlobLibrary)
    (requests : List ResolveRequest) : Prop where
  roots : ∀ r ∈ includes requests,
    knownRoot disk (some listing) r.baseDir = knownRoot disk none r.baseDir
  files : ∀ r ∈ includes requests, r.semantics = .Wildcard → ∀ exclusions globset candidates,
    Exclusions.compile globs (negations requests) = .ok exclusions →
    buildGlobset globs [r.pattern] = .ok globset →
    knownCandidates disk (some listing) r.baseDir = .ok candidates →
    ∃ fresh, knownCandidates disk none r.baseDir = .ok fresh ∧
      candidates.filter (selects globset exclusions) = fresh.filter (selects globset exclusions)

/-- A file with the size and the time of its prior entry has the content of that entry. -/
def PriorSound (disk : Disk) (requests : List ResolveRequest) (priorEntries : List FileEntry) : Prop :=
  ∀ r ∈ includes requests, ∀ basePrefix, knownPrefix disk none r.baseDir = .ok basePrefix →
    ∀ path metadata entry, disk.metadata (r.baseDir.join (.ofStr path)) = .ok (some metadata) →
      (priorEntriesByPath priorEntries).lookup (qualifyRelativePath basePrefix path) = some entry →
      entry.absent = false → entry.size = metadata.len → entry.mtimeNs = metadata.mtimeNs →
      disk.blake3File (r.baseDir.join (.ofStr path)) = .ok entry.hash

variable {disk : Disk} {listing : ListingCache} {globs : GlobLibrary}
  {requests : List ResolveRequest} {priorEntries : List FileEntry}

theorem fileEntryFromPath_of_sound (hprior : PriorSound disk requests priorEntries)
    {r : ResolveRequest} (hr : r ∈ includes requests) {basePrefix : Path}
    (hfront : knownPrefix disk none r.baseDir = .ok basePrefix) {path : String} {entry : FileEntry}
    (h : fileEntryFromPath disk (priorEntriesByPath priorEntries) ⟨r.baseDir, basePrefix⟩ path =
      .ok entry) :
    fileEntryFromPath disk (priorEntriesByPath []) ⟨r.baseDir, basePrefix⟩ path = .ok entry := by
  unfold fileEntryFromPath at h ⊢
  obtain ⟨metadata, hmetadata, h⟩ := bind_eq_ok.1 h
  refine bind_eq_ok.2 ⟨metadata, hmetadata, ?_⟩
  cases metadata with
  | none => exact h
  | some metadata =>
    obtain ⟨hash, hhash, h⟩ := bind_eq_ok.1 h
    refine bind_eq_ok.2 ⟨hash, ?_, h⟩
    show disk.blake3File (r.baseDir.join (.ofStr path)) = .ok hash
    cases hreused : ((priorEntriesByPath priorEntries).lookup
        (qualifyRelativePath basePrefix path)).filter fun entry =>
          !entry.absent && entry.size = metadata.len && entry.mtimeNs = metadata.mtimeNs with
    | none =>
      rw [hreused] at hhash
      exact hhash
    | some prior =>
      rw [hreused] at hhash
      obtain ⟨hlookup, hsame⟩ := Option.filter_eq_some_iff.1 hreused
      simp only [Bool.and_eq_true, Bool.not_eq_true', decide_eq_true_eq] at hsame
      obtain rfl := Except.ok.inj hhash
      exact hprior r hr basePrefix hfront path metadata prior hmetadata hlookup hsame.1.1 hsame.1.2
        hsame.2

theorem knownSingleRequest_of_agrees (hagrees : ListingAgrees disk listing globs requests)
    (hprior : PriorSound disk requests priorEntries) {exclusions : Exclusions}
    (hexclusions : Exclusions.compile globs (negations requests) = .ok exclusions)
    {r : ResolveRequest} (hr : r ∈ includes requests) {basePrefix : Path}
    (hfront : knownPrefix disk none r.baseDir = .ok basePrefix) {entries : List FileEntry}
    (h : knownSingleRequest disk (some listing) globs (priorEntriesByPath priorEntries) exclusions r
      ⟨r.baseDir, basePrefix⟩ = .ok entries) :
    knownSingleRequest disk none globs (priorEntriesByPath []) exclusions r
      ⟨r.baseDir, basePrefix⟩ = .ok entries := by
  have hsound : ∀ path entry, fileEntryFromPath disk (priorEntriesByPath priorEntries)
      ⟨r.baseDir, basePrefix⟩ path = .ok entry →
        fileEntryFromPath disk (priorEntriesByPath []) ⟨r.baseDir, basePrefix⟩ path = .ok entry :=
    fun path entry => fileEntryFromPath_of_sound hprior hr hfront
  unfold knownSingleRequest at h ⊢
  cases hsem : r.semantics with
  | Literal =>
    rw [hsem] at h
    unfold resolveLiteralRequest at h ⊢
    dsimp only at h ⊢
    split at h
    · rename_i hexcluded
      rw [if_pos hexcluded, h]
    · rename_i hincluded
      rw [if_neg hincluded]
      obtain ⟨entry, hentry, rfl⟩ := map_eq_ok.1 h
      exact map_eq_ok.2 ⟨entry, hsound _ _ hentry, rfl⟩
  | Wildcard =>
    rw [hsem] at h
    obtain ⟨candidates, hcandidates, h⟩ := bind_eq_ok.1 h
    obtain ⟨globset, hglobset, h⟩ := bind_eq_ok.1 h
    obtain ⟨fresh, hfresh, hsame⟩ :=
      hagrees.files r hr hsem exclusions globset candidates hexclusions hglobset hcandidates
    refine bind_eq_ok.2 ⟨fresh, hfresh, bind_eq_ok.2 ⟨globset, hglobset, ?_⟩⟩
    show List.mapM _ (fresh.filter (selects globset exclusions)) = _
    rw [← hsame]
    exact mapM_ok_of_ok (fun path _ entry => hsound path.toStr entry) h

/-- Listings that select the same files are no loss. -/
theorem knownInputs_of_agrees (hagrees : ListingAgrees disk listing globs requests)
    (hprior : PriorSound disk requests priorEntries) {entries : List FileEntry}
    (h : knownInputs disk (some listing) globs requests priorEntries = .ok entries) :
    knownInputs disk none globs requests [] = .ok entries := by
  unfold knownInputs at h ⊢
  split at h
  · rename_i hnil
    rw [if_pos hnil]
    exact h
  · rename_i hnil
    rw [if_neg hnil]
    dsimp only at h ⊢
    obtain ⟨exclusions, hexclusions, h⟩ := bind_eq_ok.1 h
    obtain ⟨resolved, hresolved, h⟩ := bind_eq_ok.1 h
    refine bind_eq_ok.2 ⟨exclusions, hexclusions, bind_eq_ok.2 ⟨resolved, ?_, h⟩⟩
    refine mapM_ok_of_ok (fun r hr b hb => ?_) hresolved
    unfold knownRequestEntries at hb ⊢
    obtain ⟨basePrefix, hfront, hb⟩ := bind_eq_ok.1 hb
    have hroot : knownPrefix disk none r.baseDir = .ok basePrefix := by
      rw [knownPrefix, hagrees.roots r hr] at hfront
      exact hfront
    refine bind_eq_ok.2 ⟨basePrefix, hroot, ?_⟩
    obtain ⟨entries, hentries, hb⟩ := bind_eq_ok.1 hb
    exact bind_eq_ok.2 ⟨entries,
      knownSingleRequest_of_agrees hagrees hprior hexclusions hr hroot hentries, hb⟩

/-- Listings that were made on the disk agree with it. -/
theorem listingAgrees_of_known (hroots : knownRoot disk (some listing) = knownRoot disk none)
    (hcandidates : knownCandidates disk (some listing) = knownCandidates disk none) :
    ListingAgrees disk listing globs requests where
  roots _ _ := congrFun hroots _
  files _ _ _ _ _ candidates _ _ h := ⟨candidates, hcandidates ▸ h, rfl⟩

/-! ## The key of the lookup -/

variable {env : RunEnv} {ctx : CacheWriteContext}

/-- The lookup key is made of the inputs that the run knows. -/
theorem sharedLookupKey_eq {blake3 : Bytes → Digest} {sharedCache : Option SharedCache}
    {localRecord : Option TaskRunRecord} {inputsHash key : Digest}
    (h : sharedLookupKey blake3 sharedCache ctx.taskDef (ctx.currentState env listing) localRecord =
      some (inputsHash, key)) :
    ∃ requests entries,
      expandInputPatterns env.toposort env.order ctx.taskDef.inputs ctx.sourcePkg ctx.packageGraph
        ctx.repoRoot = .ok requests ∧
      knownInputs env.disk (some listing) env.globs requests (localRecord.elim [] (·.inputs)) =
        .ok entries ∧
      key = deriveInputKey blake3 ctx.taskSpecHash ctx.envHash ctx.pkgDepHash
        (combinedDepOutputsHash blake3 ctx.depOutputs) (combinedInputsHash blake3 entries) := by
  unfold sharedLookupKey at h
  obtain ⟨cache, -, h⟩ := Option.bind_eq_some_iff.1 h
  obtain ⟨⟨⟩, -, h⟩ := Option.bind_eq_some_iff.1 h
  obtain ⟨entries, hentries, h⟩ := Option.bind_eq_some_iff.1 h
  obtain ⟨-, rfl⟩ := Prod.mk.inj (Option.some.inj h)
  change (ctx.resolver.resolveInputs env listing ctx.taskDef.inputs
    (localRecord.elim [] (·.inputs))).1.toOption = some entries at hentries
  unfold PackageDirResolver.resolveInputs at hentries
  split at hentries
  · cases hentries
  · rename_i requests hrequests
    rw [(resolveInputs_eq _ _ _ _ _).1] at hentries
    refine ⟨requests, entries, hrequests, ?_, rfl⟩
    cases hknown : knownInputs env.disk (some listing) env.globs requests
        (localRecord.elim [] (·.inputs)) with
    | error e =>
      rw [hknown] at hentries
      cases hentries
    | ok known =>
      rw [hknown] at hentries
      rw [Option.some.inj hentries]

/-- The snapshot, where the requests resolve. -/
theorem snapshot_eq {diskBefore : Disk} {entries : List FileEntry} (hnone : ctx.preSnapshot = none)
    (hexpand : expandInputPatterns env.toposort env.order ctx.taskDef.inputs ctx.sourcePkg
      ctx.packageGraph ctx.repoRoot = .ok requests)
    (h : resolveInputsWithSemantics diskBefore env.globs requests = .ok entries) :
    (ctx.capturePreExecutionSnapshot { env with disk := diskBefore }).snapshot = entries := by
  rw [CacheWriteContext.capturePreExecutionSnapshot, hnone]
  show (some (resolvePreExecutionInputs { env with disk := diskBefore } ctx)).getD [] = entries
  rw [resolvePreExecutionInputs]
  simp only [hexpand, h]
  rfl

/-! ## The key of the store -/

/-- Whatever is stored is stored under this key. -/
structure StoredUnder (key : Digest) (c c' : SharedCache) : Prop where
  entries : ∀ k ≠ key, c'.pendingEntries.lookup k = c.pendingEntries.lookup k
  artifacts : ∃ added, c'.pushedArtifacts = c.pushedArtifacts ++ added ∧ ∀ a ∈ added, a.2 = key

theorem StoredUnder.of_published {key : Digest} {c c₁ c' : SharedCache} (h : StoredUnder key c c₁)
    (heq : SharedCache.published c' = SharedCache.published c₁) : StoredUnder key c c' := by
  obtain ⟨hentries, hartifacts⟩ := Prod.mk.inj heq
  exact ⟨fun k hk => (congrArg (·.lookup k) hentries).trans (h.entries k hk),
    hartifacts ▸ h.artifacts⟩

theorem StoredUnder.refl (key : Digest) (c : SharedCache) : StoredUnder key c c :=
  ⟨fun _ _ => rfl, [], by simp, by simp⟩

theorem storedUnder_of_published {key : Digest} {c c' : SharedCache} (h : Published key c c') :
    StoredUnder key c c' := by
  obtain ⟨⟨entry, hentry⟩, outputsHash, hpushed⟩ := h
  refine ⟨fun k hk => ?_, [(outputsHash, key)], hpushed, by simp⟩
  rw [hentry, AList.lookup_insert_ne hk]

theorem storeShared_storedUnder (repoRoot : Path) (record : TaskRunRecord) (logs : CapturedLogs)
    (ms : UInt64) (shared : SharedCache) : StoredUnder (recordInputKey env ctx record) shared
      (storeShared env ctx repoRoot record logs ms shared).2 := by
  have hstore : StoredUnder (recordInputKey env ctx record) shared
      (storeWithExecutionDuration env.io (storeRequest env ctx repoRoot record logs) ms shared).2 := by
    have hentries := @store_entries env.io shared (storeRequest env ctx repoRoot record logs) ms
      shared rfl
    cases hr : storeWithExecutionDuration env.io (storeRequest env ctx repoRoot record logs) ms
        shared with
    | mk r s =>
      rw [hr] at hentries
      cases r with
      | error e =>
        obtain rfl : s = shared := hentries
        exact .refl _ _
      | ok o =>
        obtain ⟨-, hpublished⟩ | ⟨-, rfl⟩ := hentries
        · exact storedUnder_of_published hpublished
        · exact .refl _ _
  exact hstore.of_published (publishAdvisory_published repoRoot record ms)

/-- The key that the snapshot hashes to. -/
def snapshotKey (env : RunEnv) (ctx : CacheWriteContext) : Digest :=
  deriveInputKey env.blake3 ctx.taskSpecHash ctx.envHash ctx.pkgDepHash
    (combinedDepOutputsHash env.blake3 ctx.depOutputs) (combinedInputsHash env.blake3 ctx.snapshot)

/-- What a run stores, it stores under the key of its snapshot. -/
theorem run_storedUnder {run : SpawnedTaskRun} {outcomeRes : Except ExecutorError TaskRunOutcome}
    {before : RunState} (hctx : run.cacheWrite = some ctx) {c' : SharedCache}
    (hafter : (runTaskAndPersistCache env run outcomeRes before).2.sharedCache = some c') :
    ∃ c, before.sharedCache = some c ∧ StoredUnder (snapshotKey env ctx) c c' := by
  have hsame : (runTaskAndPersistCache env run outcomeRes before).2.sharedCache = before.sharedCache →
      ∃ c, before.sharedCache = some c ∧ StoredUnder (snapshotKey env ctx) c c' :=
    fun h => ⟨c', h ▸ hafter, .refl _ _⟩
  cases hsucceeded : outcomeRes.toOption.any (·.status.success) with
  | false => exact hsame (run_unpublished hsucceeded before).1
  | true =>
    cases outcomeRes with
    | error e => cases hsucceeded
    | ok outcome =>
      by_cases hbuilds : Builds env ctx outcome
      · have hcaches : caches (runTaskAndPersistCache env run (.ok outcome) before).2 =
            (written env run ctx outcome before.records,
              before.sharedCache.map (offered env run ctx outcome)) :=
          caches_of_triple ((success_caches hctx hsucceeded).1 hbuilds) fun _ hs => hs.elim
        rw [(Prod.mk.inj hcaches).2] at hafter
        obtain ⟨c, hc, rfl⟩ := Option.map_eq_some_iff.1 hafter
        refine ⟨c, hc, ?_⟩
        rw [offered]
        split
        · exact @storeShared_storedUnder env (started run ctx) _ (successRecord env run outcome ctx) _ _ c
        · exact .refl _ _
      · exact hsame (Prod.mk.inj (caches_of_triple ((success_caches hctx hsucceeded).2 hbuilds)
          fun _ hs => hs)).2

/-! ## Both keys -/

/-- What a run stores, it stores under the key that was looked up, where the inputs have not changed
since and the listings of the run agree with the disk. -/
theorem store_key_eq (env : RunEnv) (diskAt diskBefore : Disk) (ctx : CacheWriteContext)
    (run : SpawnedTaskRun) (outcomeRes : Except ExecutorError TaskRunOutcome) (before : RunState)
    (listing : ListingCache) (sharedCache : Option SharedCache) (localRecord : Option TaskRunRecord)
    {inputsHash key : Digest} (hnone : ctx.preSnapshot = none)
    (hkey : sharedLookupKey env.blake3 sharedCache ctx.taskDef
      (ctx.currentState { env with disk := diskAt } listing) localRecord = some (inputsHash, key))
    (hinputs : ∀ requests, expandInputPatterns env.toposort env.order ctx.taskDef.inputs ctx.sourcePkg
        ctx.packageGraph ctx.repoRoot = .ok requests →
      ListingAgrees diskAt listing env.globs requests ∧
        PriorSound diskAt requests (localRecord.elim [] (·.inputs)) ∧
        resolveInputsWithSemantics diskBefore env.globs requests =
          resolveInputsWithSemantics diskAt env.globs requests)
    {c' : SharedCache} (hafter : (runTaskAndPersistCache env (prepared env diskBefore ctx run)
      outcomeRes before).2.sharedCache = some c') :
    ∃ c, before.sharedCache = some c ∧ StoredUnder key c c' := by
  obtain ⟨requests, entries, hexpand, hknown, rfl⟩ := sharedLookupKey_eq hkey
  obtain ⟨hagrees, hprior, hunchanged⟩ := hinputs requests hexpand
  have hfresh : resolveInputsWithSemantics diskBefore env.globs requests = .ok entries := by
    rw [hunchanged]
    exact (resolveInputs_eq _ _ _ _ _).1.trans (knownInputs_of_agrees hagrees hprior hknown)
  have hsnapshot := snapshot_eq hnone hexpand hfresh
  obtain ⟨c, hc, hstored⟩ := run_storedUnder rfl hafter
  refine ⟨c, hc, ?_⟩
  have hsame : snapshotKey env (ctx.capturePreExecutionSnapshot { env with disk := diskBefore }) =
      deriveInputKey env.blake3 ctx.taskSpecHash ctx.envHash ctx.pkgDepHash
        (combinedDepOutputsHash env.blake3 ctx.depOutputs) (combinedInputsHash env.blake3 entries) := by
    rw [snapshotKey, hsnapshot, CacheWriteContext.capturePreExecutionSnapshot]
    split <;> rfl
  exact hsame ▸ hstored

/-! ## A generated source -/

/-- A digest that adds up. -/
def sumDigest (bytes : Bytes) : Digest := .replicate 32 bytes.sum

def sourceFile (name : FileName) : List FileName := [repoName, appName, ⟨"src", by decide⟩, name]

def writtenSources : List (List FileName) := [sourceFile ⟨"a.ts", by decide⟩]

/-- What another task of the run has generated meanwhile. -/
def generatedSources : List (List FileName) := writtenSources ++ [sourceFile ⟨"gen.ts", by decide⟩]

def sourcesEnv (files : List (List FileName)) : RunEnv :=
  { sampleEnv with globs := starGlobs, blake3 := sumDigest, disk := diskOf files }

def compileWrite (outputs : List String) : CacheWriteContext :=
  { sampleWrite with
    taskDef := { TaskDefinition.new [] 1 with inputs := ["src/*.ts"], outputs := outputs }
    preSnapshot := none }

def appSources : ResolveRequest := ⟨.ofStr "/repo/app", "src/*.ts", .Wildcard, false⟩

/-- The listings once a task has resolved these inputs. -/
def earlierListing : ListingCache :=
  (resolveInputsWithSemanticsAndOptions (diskOf writtenSources) starGlobs [appSources] []
    (some .empty)).2.getD .empty

def lookedUp (files : List (List FileName)) (outputs : List String) : Option Digest :=
  (sharedLookupKey sumDigest sampleState.sharedCache (compileWrite outputs).taskDef
    ((compileWrite outputs).currentState (sourcesEnv files) earlierListing) none).map Prod.snd

def storedCache (files : List (List FileName)) (outputs : List String) : Option SharedCache :=
  (runTaskAndPersistCache (sourcesEnv files) (prepared (sourcesEnv files) (diskOf files)
    (compileWrite outputs) sampleRun) (.ok (.worker ⟨0, none⟩)) sampleState).2.sharedCache

def storedKeys (files : List (List FileName)) (outputs : List String) : Option (List Digest) :=
  (storedCache files outputs).map (·.pendingEntries.keys)

theorem eq_some_getD {α : Type} {o : Option α} (h : o.isSome = true) (d : α) :
    o = some (o.getD d) := by
  cases o with
  | none => cases h
  | some a => rfl

theorem earlierListing_known : knownRoot (diskOf writtenSources) (some earlierListing) =
      knownRoot (diskOf writtenSources) none ∧
    knownCandidates (diskOf writtenSources) (some earlierListing) =
      knownCandidates (diskOf writtenSources) none := by
  obtain ⟨-, hroots, hcandidates⟩ := resolveInputs_eq (diskOf writtenSources) starGlobs
    [appSources] [] (some .empty)
  have hsome : (resolveInputsWithSemanticsAndOptions (diskOf writtenSources) starGlobs [appSources] []
      (some .empty)).2.isSome = true := by
    decide +kernel
  rw [eq_some_getD hsome .empty] at hroots hcandidates
  rw [earlierListing, hroots, hcandidates]
  constructor
  · funext b
    simp [knownRoot, ListingCache.empty]
  · funext b
    simp [knownCandidates, listedNow, knownPrefix, knownRoot, ListingCache.empty]

/-- Of two tasks that read the same sources, the second stores what it looked up. -/
theorem store_key_eq_sample : ∃ c' c, storedCache writtenSources [] = some c' ∧
    sampleState.sharedCache = some c ∧ StoredUnder (.replicate 32 192) c c' := by
  have hstored : (storedCache writtenSources []).isSome = true := by decide +kernel
  have hlooked : lookedUp writtenSources [] = some (.replicate 32 192) := by decide +kernel
  obtain ⟨c', hc'⟩ := Option.isSome_iff_exists.1 hstored
  obtain ⟨⟨inputsHash, key⟩, hkey, rfl : key = _⟩ := Option.map_eq_some_iff.1 hlooked
  have hinputs : ∀ requests, expandInputPatterns .kahn .id ["src/*.ts"] ⟨"app"⟩
      sampleWrite.packageGraph (.ofStr "/repo") = .ok requests →
      ListingAgrees (diskOf writtenSources) earlierListing starGlobs requests ∧
        PriorSound (diskOf writtenSources) requests [] ∧
        resolveInputsWithSemantics (diskOf writtenSources) starGlobs requests =
          resolveInputsWithSemantics (diskOf writtenSources) starGlobs requests := by
    intro requests hrequests
    refine ⟨listingAgrees_of_known earlierListing_known.1 earlierListing_known.2, ?_, rfl⟩
    intro r hr basePrefix hfront path metadata entry hmetadata hprior
    cases hprior
  obtain ⟨c, hc, hunder⟩ := store_key_eq (sourcesEnv writtenSources) (diskOf writtenSources)
    (diskOf writtenSources) (compileWrite []) sampleRun (.ok (.worker ⟨0, none⟩)) sampleState
    earlierListing sampleState.sharedCache none rfl hkey hinputs hc'
  exact ⟨c', c, hc', hc, hunder⟩

/-- A source that was generated after the listing was made is in the key of the store only. A task
whose outputs are spelled with a parent traversal stores what it never looked up. -/
theorem keys_differ :
    (lookedUp generatedSources [], storedKeys generatedSources []) =
        (some (.replicate 32 192), some [.replicate 32 96]) ∧
      (lookedUp writtenSources ["src/../dist.js"], storedKeys writtenSources ["src/../dist.js"]) =
        (none, some [.replicate 32 192]) := by
  decide +kernel

end Luchta.Proof.Dispatch
