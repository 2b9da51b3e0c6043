import Luchta.Framework.Globs
import Luchta.Impl.RunRecord
import Luchta.Proof.CacheFiles.Accepted
import Luchta.Proof.CacheFiles.Spelled
import Luchta.Proof.Dispatch.Outcomes
import Luchta.Proof.Resolve.Matcher

/-!
# Advisory files round-trip

* `advisoryRequest_spec`: what a task hands over when it publishes its advisory files.
* `cache_files_round_trip`: when the archive of it is accepted, and when an accepted path is one that
  the task would publish.
-/

namespace Luchta.Proof.CacheFiles

open Luchta.Framework Luchta.Impl Luchta.Proof.Dispatch Luchta.Proof.Resolve

variable {env : RunEnv} {ctx : CacheWriteContext} {repoRoot : Path} {record : TaskRunRecord}
  {request : CacheFileStoreRequest} {entries : List FileEntry} {hash : Digest}

/-- What the archive of a request restores. -/
def restored (disk : Disk) (request : CacheFileStoreRequest) : StagedRestore :=
  archive disk request.packageDir request.relativePaths

theorem advisoryRequest_spec (h : advisoryRequest env ctx repoRoot record = some request)
    (hentries : resolveOutputs env.disk env.globs ctx.packagePath ctx.taskDef.cacheFiles = .ok entries) :
    ctx.taskDef.cacheFiles ≠ [] ∧ request.packageDir = ctx.packagePath ∧
      request.relativePaths = relativePaths entries ∧
      request.stateHash = if present entries = [] then none
        else some (combinedCacheFilesHash env.blake3 (present entries)) := by
  rw [advisoryRequest] at h
  split at h
  · cases h
  · rename_i hguard
    obtain ⟨found, hfound, h⟩ := Option.bind_eq_some_iff.1 h
    rw [hentries] at hfound
    obtain rfl := Option.some.inj hfound
    dsimp only at h
    split at h
    · cases h
    · obtain rfl := Option.some.inj h
      refine ⟨?_, rfl, rfl, rfl⟩
      simp only [Bool.or_eq_true, not_or] at hguard
      simpa using hguard.2

theorem stage_eq_staged {globs : GlobLibrary} {blake3 : Bytes → Digest} {staged : StagedRestore}
    {patterns : List String} :
    stageCacheFileBlob globs blake3 (.Restored staged) hash patterns = .Staged staged ↔
      stagedCacheFileBlobIsValid globs blake3 staged hash patterns = true := by
  rw [stageCacheFileBlob]
  split
  · rename_i hvalid
    exact iff_of_true rfl hvalid
  · rename_i hvalid
    exact iff_of_false nofun hvalid

/-- What is published is accepted again where it is spelled as the archive names it, and, names with
backslashes apart, nowhere else. An accepted path is one that the publisher selects exactly if it is
selectable. -/
theorem cache_files_round_trip (hlaws : GlobLaws env.globs)
    (hrequest : advisoryRequest env ctx repoRoot record = some request)
    (hentries : resolveOutputs env.disk env.globs ctx.packagePath ctx.taskDef.cacheFiles = .ok entries)
    (hhash : request.stateHash = some hash) :
    ((∀ t f, Stored env.disk env.globs ctx.packagePath ctx.taskDef.cacheFiles t f →
        Spelled ctx.taskDef.cacheFiles t) →
      stageCacheFileBlob env.globs env.blake3 (.Restored (restored env.disk request)) hash
        ctx.taskDef.cacheFiles = .Staged (restored env.disk request)) ∧
    ((∀ t f, Stored env.disk env.globs ctx.packagePath ctx.taskDef.cacheFiles t f → '\\' ∉ t.toList) →
      HashedApart env.blake3 (restored env.disk request) (present entries) →
      stageCacheFileBlob env.globs env.blake3 (.Restored (restored env.disk request)) hash
        ctx.taskDef.cacheFiles = .Staged (restored env.disk request) →
      ∀ t f, Stored env.disk env.globs ctx.packagePath ctx.taskDef.cacheFiles t f →
        Spelled ctx.taskDef.cacheFiles t) ∧
    ∀ (staged : StagedRestore) (stateHash : Digest) (patterns : List String),
      stageCacheFileBlob env.globs env.blake3 (.Restored staged) stateHash patterns = .Staged staged →
      ∀ path ∈ staged.relativeFilePaths, ∀ (disk : Disk) (dir : Path) (found : List FileEntry),
        Holds disk dir path → resolveOutputs disk env.globs dir patterns = .ok found →
        (Selects disk env.globs dir patterns path ↔ Selectable env.globs patterns path) := by
  obtain ⟨hne, hdir, hpaths, hstate⟩ := advisoryRequest_spec hrequest hentries
  rw [hhash] at hstate
  split at hstate
  · cases hstate
  rename_i hpresent
  obtain rfl := Option.some.inj hstate
  rw [restored, hdir, hpaths]
  refine ⟨fun hspelled => ?_, fun hslashes happart hstage t f hstored => ?_, ?_⟩
  · exact stage_eq_staged.2 (isValid_of_spelled hlaws hne hentries hpresent hspelled)
  · exact spelled_of_isValid hlaws hne hentries hslashes happart (stage_eq_staged.1 hstage) hstored
  · intro staged stateHash patterns hstage path hpath disk dir found hholds hfound
    have haccepted := (isValid_iff.1 (stage_eq_staged.1 hstage)).2.1 path hpath
    have hsome : patterns ≠ [] := by
      rintro rfl
      obtain ⟨q, hq, -⟩ := ((pathMatchesPatterns_iff path).1 haccepted).1
      cases hq
    exact selects_iff hlaws hsome haccepted hholds hfound

/-! ## A package with a state file -/

/-- Globs in which a `*` is special, and a backslash before any character. -/
def escapedMatch : List Char → List Char → Bool
  | [] => List.isEmpty
  | '\\' :: c :: pattern => fun text => text.head? = some c && escapedMatch pattern text.tail
  | '*' :: pattern => starRest (escapedMatch pattern)
  | c :: pattern => fun text => text.head? = some c && escapedMatch pattern text.tail

def escapedGlobs : GlobLibrary where
  buildPathGlob pattern := .ok fun text => escapedMatch pattern.toList text.toList
  buildSet globs := .ok fun text => globs.any (· text)

theorem escapedMatch_literal {pattern : List Char} (hpattern : ∀ c ∈ pattern, c ∉ GLOB_CHARS)
    {text : List Char} (h : escapedMatch pattern text = true) : text = unescapeChars pattern := by
  induction pattern using escapedMatch.induct generalizing text with
  | case1 => simpa [escapedMatch, unescapeChars] using h
  | case2 c pattern ih =>
    rw [escapedMatch, Bool.and_eq_true, decide_eq_true_eq] at h
    have hrest : ∀ c ∈ pattern, c ∉ GLOB_CHARS := fun c hc => hpattern c (by simp [hc])
    rw [unescapeChars]
    exact head_tail_eq h.1 (ih hrest h.2)
  | case3 pattern ih => exact absurd (by decide) (hpattern '*' List.mem_cons_self)
  | case4 c pattern hescape hstar ih =>
    have hrest : ∀ c ∈ pattern, c ∉ GLOB_CHARS := fun c hc => hpattern c (by simp [hc])
    rw [unescapeChars.eq_3 c pattern hescape]
    rw [escapedMatch.eq_4 c pattern hescape hstar, Bool.and_eq_true, decide_eq_true_eq] at h
    exact head_tail_eq h.1 (ih hrest h.2)

theorem escapedGlobs_laws : GlobLaws escapedGlobs where
  set_any gs set h text := by
    obtain rfl := Except.ok.inj h
    rfl
  literal pattern glob hpattern h text htext := by
    obtain rfl := Except.ok.inj h
    have hchars : ∀ c ∈ pattern.toList, c ∉ GLOB_CHARS := by
      intro c hc hglob
      have hany : pattern.toList.any (· ∈ GLOB_CHARS) = true :=
        List.any_eq_true.2 ⟨c, hc, decide_eq_true hglob⟩
      rw [classifyPattern, if_pos hany] at hpattern
      cases hpattern
    rw [unescapeLiteral, ← escapedMatch_literal hchars htext, String.ofList_toList]

def stateName : FileName := ⟨"state.bin", by decide⟩
def cacheName : FileName := ⟨"cache", by decide⟩

/-- A disk with these files, where the directories above them are there too. -/
def packageDisk (files : List (List FileName)) : Disk :=
  { diskOf files with
    metadata := fun place => .ok (
      if (files.map placeOf).any (·.startsWith place.lexicalNormalize) then some ⟨1, 0⟩ else none) }

def advisoryEnv (files : List (List FileName)) : RunEnv :=
  { sampleEnv with globs := escapedGlobs, disk := packageDisk files }

def advisoryWrite (patterns : List String) : CacheWriteContext :=
  { sampleWrite with taskDef := { sampleWrite.taskDef with cacheFiles := patterns } }

def advisoryRecord : TaskRunRecord :=
  assembleRunRecord sampleEnv sampleWrite ⟨some ⟨⟨0⟩, none⟩, true, 1, none⟩ ⟨[], [], false⟩ []

/-- What `app#build` publishes, with these advisory files. -/
def published (files : List (List FileName)) (patterns : List String) : Option CacheFileStoreRequest :=
  advisoryRequest (advisoryEnv files) (advisoryWrite patterns) (.ofStr "/repo") advisoryRecord

/-- Whether the archive of that is taken to be corrupt. -/
def corruptAgain (files : List (List FileName)) (patterns : List String) : Option Bool := do
  let request ← published files patterns
  let hash ← request.stateHash
  return match stageCacheFileBlob escapedGlobs sampleEnv.blake3
      (.Restored (restored (packageDisk files) request)) hash patterns with
    | .Corrupt => true
    | _ => false

def stateFile : List (List FileName) := [[repoName, appName, stateName]]

def stateEntry : FileEntry := ⟨"state.bin", 1, 0, .replicate 32 1, false⟩

def stateRequest : CacheFileStoreRequest :=
  (published stateFile ["state.bin"]).get (by decide +kernel)

theorem published_state : published stateFile ["state.bin"] = some stateRequest :=
  (Option.some_get _).symm

theorem stored_state {t : String} {f : StagedFile}
    (h : Stored (packageDisk stateFile) escapedGlobs (.ofStr "/repo/app") ["state.bin"] t f) :
    t = "state.bin" := by
  obtain ⟨candidates, -, hselected, -⟩ := h
  have hmem := List.mem_of_find?_eq_some hselected.first
  have hnone : globPatterns ["state.bin"] = [] := by decide
  rw [named, hnone] at hmem
  simpa [show literalPaths ["state.bin"] = ["state.bin"] by decide] using hmem

theorem spelled_state : Spelled ["state.bin"] "state.bin" := by
  refine ⟨by decide, by decide, fun body hbody => ?_⟩
  rw [show exclusionBodies ["state.bin"] = [] by decide] at hbody
  cases hbody

theorem holds_state : Holds (packageDisk stateFile) (.ofStr "/repo/app") (.ofStr "state.bin") := by
  rintro ⟨components⟩ hpre
  rw [show (Path.ofStr "state.bin").components = [.normal "state.bin"] by decide] at hpre
  have hcases : components = [] ∨ components = [.normal "state.bin"] := by
    cases components with
    | nil => exact .inl rfl
    | cons c rest =>
      obtain ⟨rfl, hrest⟩ := List.cons_prefix_cons.1 hpre
      rw [List.prefix_nil.1 hrest]
      exact .inr rfl
  rcases hcases with rfl | rfl
  · exact ⟨by decide +kernel, _, List.mem_map.2 ⟨_, List.mem_filter.2 ⟨List.mem_singleton.2 rfl,
      by decide +kernel⟩, rfl⟩, rfl, by decide +kernel⟩
  · exact ⟨by decide +kernel, _, List.mem_map.2 ⟨_, List.mem_filter.2 ⟨List.mem_singleton.2 rfl,
      by decide +kernel⟩, rfl⟩, rfl, by decide +kernel⟩

/-- One state file, by its name: it is published and staged again. -/
theorem cache_files_round_trip_state :
    (∃ hash, stateRequest.stateHash = some hash ∧
      stageCacheFileBlob escapedGlobs sampleEnv.blake3
        (.Restored (restored (packageDisk stateFile) stateRequest)) hash ["state.bin"] =
          .Staged (restored (packageDisk stateFile) stateRequest)) ∧
    (∀ t f, Stored (packageDisk stateFile) escapedGlobs (.ofStr "/repo/app") ["state.bin"] t f →
      Spelled ["state.bin"] t) ∧
    Selects (packageDisk stateFile) escapedGlobs (.ofStr "/repo/app") ["state.bin"]
      (.ofStr "state.bin") := by
  have hentries : resolveOutputs (packageDisk stateFile) escapedGlobs (.ofStr "/repo/app")
      ["state.bin"] = .ok [stateEntry] := by decide +kernel
  obtain ⟨hash, hhash⟩ : ∃ hash, stateRequest.stateHash = some hash :=
    Option.isSome_iff_exists.1 (by decide +kernel)
  obtain ⟨hstage, hspelled, hselects⟩ := @cache_files_round_trip (advisoryEnv stateFile)
    (advisoryWrite ["state.bin"]) _ _ _ _ _ escapedGlobs_laws published_state hentries hhash
  have hstaged := hstage fun t f hstored => stored_state hstored ▸ spelled_state
  have happart : HashedApart sampleEnv.blake3 (restored (packageDisk stateFile) stateRequest)
      (present [stateEntry]) := ⟨by decide +kernel, by decide +kernel, fun _ => by decide +kernel⟩
  have hslashes : ∀ t f, Stored (packageDisk stateFile) escapedGlobs (.ofStr "/repo/app")
      ["state.bin"] t f → '\\' ∉ t.toList := fun t f hstored =>
    stored_state hstored ▸ spelled_state.slashes
  refine ⟨⟨hash, hhash, hstaged⟩, hspelled hslashes happart hstaged, ?_⟩
  have hpath : Path.ofStr "state.bin" ∈
      (restored (packageDisk stateFile) stateRequest).relativeFilePaths := by decide +kernel
  refine (hselects _ hash ["state.bin"] hstaged _ hpath (packageDisk stateFile) _ _ holds_state
    hentries).2 ?_
  have hliteral : (literalPaths ["state.bin"]).find? (fun t => Path.ofStr t = .ofStr "state.bin") =
      some "state.bin" := by decide +kernel
  rw [Selectable, hliteral]
  intro body hbody
  rw [show exclusionBodies ["state.bin"] = [] by decide] at hbody
  cases hbody

def cacheFile : List (List FileName) := [[repoName, appName, cacheName, stateName]]

/-- An archive of `cache/state.bin`. -/
def cacheArchive : StagedRestore :=
  archive (packageDisk cacheFile) (.ofStr "/repo/app") [.ofStr "cache/state.bin"]

/-- A literal with a leading dot, and a glob with a negated literal that spells the file otherwise: the
archive of what is published is corrupt. A literal with two slashes, with a negated glob that excludes
this spelling: the file is accepted out of an archive, and no such file is published. -/
theorem spellings_differ :
    corruptAgain stateFile ["./state.bin"] = some true ∧
      corruptAgain cacheFile ["cache/*", "!cache//state.bin"] = some true ∧
      stagedCacheFileBlobIsValid escapedGlobs sampleEnv.blake3 cacheArchive
        (cacheArchive.cacheFilesHash sampleEnv.blake3) ["cache//state.bin", "!cache//*"] = true ∧
      resolveOutputs (packageDisk cacheFile) escapedGlobs (.ofStr "/repo/app")
        ["cache//state.bin", "!cache//*"] = .ok [] := by
  refine ⟨?_, ?_, ?_, ?_⟩ <;> decide +kernel

end Luchta.Proof.CacheFiles
