import Luchta.Framework.BTreeSet
import Luchta.Framework.Memo
import Luchta.Framework.Sorted
import Luchta.Impl.InputExpansion
import Luchta.Impl.Record

/-!
# Resolving inputs

How resolve requests become file entries: literals are looked up where they point, globs select from
the listing of their base directory, which is walked once in a run, and negations exclude from both.
`PathRequestMatcher` answers for one path whether the same requests would select it.
-/

namespace Luchta.Impl

open Luchta.Framework

inductive CacheError
  | Io (message : String)
  | InvalidGlob (message : String)
  | BuildGlobSet (message : String)
  | Git (message : String)
  | WalkDir (message : String)
  | StripBaseDir (message : String)
  | InvalidMtime (message : String)
  | InputExpansion (message : String)
  deriving DecidableEq

def CacheError.message : CacheError → String
  | Io m => "failed to access cache filesystem: " ++ m
  | InvalidGlob m => "invalid glob pattern: " ++ m
  | BuildGlobSet m => "failed to build glob matcher: " ++ m
  | Git m => "git repository lookup failed: " ++ m
  | WalkDir m => "walkdir scan failed: " ++ m
  | StripBaseDir m => "failed to strip base dir prefix: " ++ m
  | InvalidMtime m => "mtime predates unix epoch: " ++ m
  | InputExpansion m => "input pattern expansion failed: " ++ m

/-! ## Surroundings -/

abbrev Glob := String → Bool

/-- The glob library, under the options that `build_path_glob` sets. -/
structure GlobLibrary where
  buildPathGlob : String → Except String Glob
  buildSet : List Glob → Except String Glob

inductive FileType
  | file
  | dir
  | other
  deriving DecidableEq

/-- What a walk comes across below its root; the type may be unreadable. -/
structure WalkEntry where
  names : List FileName
  fileType : Except CacheError FileType

/-- An opened repository with its ignore stack. -/
structure Repo where
  gitDir : Path
  isExcluded : String → Except CacheError Bool

structure Metadata where
  len : UInt64
  mtimeNs : Int

/-- The file system and its repositories, at one time. -/
structure Disk where
  /-- The worktree root that `gix::discover` finds above a directory. -/
  discover : Path → Except CacheError Path
  openRepo : Path → Except CacheError Repo
  /-- Each directory comes before what is in it. -/
  walk : Path → List WalkEntry
  /-- No result where nothing is. -/
  metadata : Path → Except CacheError (Option Metadata)
  blake3File : Path → Except CacheError Digest
  canonicalize : Path → Option Path

/-- Listings and worktree roots that the tasks of a run share. -/
structure ListingCache where
  inputCandidates : HashMap Path (List Path)
  worktreeRoots : HashMap Path Path

def ListingCache.empty : ListingCache := ⟨∅, ∅⟩

/-- The maps of one resolution, and the listing cache of the run where there is one. -/
structure ResolveCaches where
  candidates : HashMap Path (List Path)
  baseDirPrefixes : HashMap Path Path
  worktreeRoots : HashMap Path Path
  listing : Option ListingCache

abbrev ResolveM (α : Type) := Memoised ResolveCaches CacheError α

/-! ## Patterns -/

section Globs

variable (globs : GlobLibrary)

def buildPathGlobs (patterns : List String) : Except CacheError (List Glob) :=
  patterns.mapM fun pattern => (globs.buildPathGlob pattern).mapError .InvalidGlob

def buildGlobset (patterns : List String) : Except CacheError Glob := do
  let built ← buildPathGlobs globs patterns
  (globs.buildSet built).mapError .BuildGlobSet

/-- `build_path_globset`, whose one error the caller reports as an invalid glob. -/
def buildPathGlobset (patterns : List String) : Except CacheError Glob := do
  let built ← buildPathGlobs globs patterns
  (globs.buildSet built).mapError .InvalidGlob

/-- Compiled exclusions, shared by every base directory of one resolution. -/
abbrev Exclusions := Option Glob

def Exclusions.compile (patterns : List String) : Except CacheError Exclusions :=
  if patterns = [] then .ok none
  else (buildGlobset globs patterns).map some

/-- Tests the text of a path relative to its own base directory. -/
def Exclusions.excludes (exclusions : Exclusions) (relativePath : String) : Bool :=
  exclusions.elim false fun set => set relativePath

end Globs

def negations (requests : List ResolveRequest) : List String :=
  (requests.filter (·.negated)).map (·.pattern)

def includes (requests : List ResolveRequest) : List ResolveRequest :=
  requests.filter (!·.negated)

/-! ## The matcher -/

inductive CompiledInclude
  | Literal (baseDir path : Path)
  | Wildcard (baseDir : Path) (matcher : Glob)

def CompiledInclude.baseDir : CompiledInclude → Path
  | Literal baseDir _ | Wildcard baseDir _ => baseDir

def CompiledInclude.accepts : CompiledInclude → Path → Bool
  | Literal _ path, relativePath => relativePath = path
  | Wildcard _ matcher, relativePath => matcher relativePath.toStr

structure PathRequestMatcher where
  includes : List CompiledInclude
  exclusions : Exclusions

def CompiledInclude.compile (globs : GlobLibrary) (request : ResolveRequest) :
    Except CacheError CompiledInclude :=
  match request.semantics with
  | .Literal => .ok (.Literal request.baseDir (.ofStr (unescapeLiteral request.pattern)))
  | .Wildcard => (buildPathGlobset globs [request.pattern]).map (.Wildcard request.baseDir)

def PathRequestMatcher.compile (globs : GlobLibrary) (requests : List ResolveRequest) :
    Except CacheError PathRequestMatcher := do
  let exclusions ← Exclusions.compile globs (negations requests)
  let compiled ← (Impl.includes requests).mapM (CompiledInclude.compile globs)
  return ⟨compiled, exclusions⟩

/-- Whether an absolute path, present or not, would be selected. -/
def PathRequestMatcher.matchesPath (matcher : PathRequestMatcher) (path : Path) : Bool :=
  matcher.includes.any fun compiled =>
    match path.stripPrefix compiled.baseDir with
    | none => false
    | some relativePath =>
      !matcher.exclusions.excludes relativePath.toStr && compiled.accepts relativePath

/-- Negations alone can never match a path. -/
def PathRequestMatcher.hasIncludes (matcher : PathRequestMatcher) : Bool := !matcher.includes.isEmpty

/-! ## Listings -/

structure WalkState where
  /-- The directory that the walk does not enter. -/
  skipped : Option Path
  paths : BTreeSet Path

def normalizePath (path : String) : String :=
  String.ofList (path.toList.map fun c => if c = '\\' then '/' else c)

def stripBaseDir (path base : Path) : Except CacheError Path :=
  match path.stripPrefix base with
  | some relative => .ok relative
  | none => .error (.StripBaseDir "prefix not found")

def WalkState.skip (s : WalkState) (path : Path) (fileType : FileType) : WalkState :=
  if fileType = .dir then { s with skipped := some path } else s

def WalkState.offer (s : WalkState) (worktreeRelative basePrefix : Path) (fileType : FileType) :
    WalkState :=
  if fileType ≠ .file then s
  else
    match worktreeRelative.stripPrefix basePrefix with
    | none => s
    | some packageRelative => { s with paths := s.paths.insert packageRelative }

/-- One entry of the walk below a base directory, at a repository with this worktree root. -/
def listStep (repo : Repo) (worktreeRoot basePrefix baseDir : Path) (s : WalkState)
    (entry : WalkEntry) : Except CacheError WalkState :=
  let path := baseDir.join (.ofNames entry.names)
  if s.skipped.any (path.startsWith ·) then .ok s
  else do
    let fileType ← entry.fileType
    if path.startsWith repo.gitDir then return s.skip path fileType
    else
      let worktreeRelative ← stripBaseDir path worktreeRoot
      let ignored ← (if path = baseDir then .ok false
        else repo.isExcluded (normalizePath worktreeRelative.toStr))
      if ignored then return s.skip path fileType
      else return s.offer worktreeRelative basePrefix fileType

/-- The files below a base directory that git does not ignore, relative to it. -/
def Disk.list (disk : Disk) (worktreeRoot basePrefix baseDir : Path) :
    Except CacheError (List Path) := do
  let repo ← disk.openRepo worktreeRoot
  let s ← (disk.walk baseDir).foldlM (listStep repo worktreeRoot basePrefix baseDir) ⟨none, .empty⟩
  return s.paths.toList

section Resolve

variable (disk : Disk)

def cachedWorktreeRoot (baseDir : Path) : ResolveM Path :=
  memo (fun s => s.worktreeRoots.lookup baseDir)
    (fun root s => { s with worktreeRoots := s.worktreeRoots.insert baseDir root })
    (memo (fun s => s.listing.bind (·.worktreeRoots.lookup baseDir))
      (fun root s => { s with listing := s.listing.map fun cache =>
        { cache with worktreeRoots := cache.worktreeRoots.insert baseDir root } })
      (liftM (disk.discover baseDir)))

def worktreeRelativeBaseDir (baseDir : Path) : ResolveM Path := do
  let workDir ← cachedWorktreeRoot disk baseDir
  liftM (stripBaseDir baseDir workDir)

/-- The map of worktree roots is a new one. -/
def listInputCandidates (baseDir : Path) : ResolveM (List Path) := do
  let outer := (← get).worktreeRoots
  modify fun s => { s with worktreeRoots := ∅ }
  let basePrefix ← worktreeRelativeBaseDir disk baseDir
  let worktreeRoot ← cachedWorktreeRoot disk baseDir
  let candidates ← liftM (disk.list worktreeRoot basePrefix baseDir)
  modify fun s => { s with worktreeRoots := outer }
  return candidates

def cachedInputCandidates (baseDir : Path) : ResolveM (List Path) :=
  memo (fun s => s.candidates.lookup baseDir)
    (fun candidates s => { s with candidates := s.candidates.insert baseDir candidates })
    (memo (fun s => s.listing.bind (·.inputCandidates.lookup baseDir))
      (fun candidates s => { s with listing := s.listing.map fun cache =>
        { cache with inputCandidates := cache.inputCandidates.insert baseDir candidates } })
      (listInputCandidates disk baseDir))

def qualifiedBaseDirPrefix (baseDir : Path) : ResolveM Path :=
  memo (fun s => s.baseDirPrefixes.lookup baseDir)
    (fun basePrefix s => { s with baseDirPrefixes := s.baseDirPrefixes.insert baseDir basePrefix })
    (worktreeRelativeBaseDir disk baseDir)

/-! ## Entries -/

def qualifyRelativePath (baseDirPrefix : Path) (relativePath : String) : String :=
  normalizePath (
    if baseDirPrefix.toStr = "" then relativePath else pushText baseDirPrefix.toStr relativePath)

/-- An input base directory with its path below the worktree root. -/
structure ResolvedBase where
  dir : Path
  prefixPath : Path

def priorEntriesByPath (priorEntries : List FileEntry) : HashMap String FileEntry :=
  .ofList (priorEntries.map fun entry => (entry.path, entry))

/-- The hash of an unchanged file is taken from the prior entry. -/
def fileEntryFromPath (prior : HashMap String FileEntry) (base : ResolvedBase)
    (relativePath : String) : Except CacheError FileEntry := do
  let absolutePath := base.dir.join (.ofStr relativePath)
  let qualifiedPath := qualifyRelativePath base.prefixPath relativePath
  match ← disk.metadata absolutePath with
  | none => return FileEntry.absentEntry qualifiedPath
  | some metadata =>
    let reused := (prior.lookup qualifiedPath).filter fun entry =>
      !entry.absent && entry.size = metadata.len && entry.mtimeNs = metadata.mtimeNs
    let hash ← reused.elim (disk.blake3File absolutePath) fun entry => .ok entry.hash
    return ⟨qualifiedPath, metadata.len, metadata.mtimeNs, hash, false⟩

variable (globs : GlobLibrary) (prior : HashMap String FileEntry) (exclusions : Exclusions)

/-- Literals skip the globs, so escapes are removed here. -/
def resolveLiteralRequest (request : ResolveRequest) (base : ResolvedBase) :
    Except CacheError (List FileEntry) :=
  let path := unescapeLiteral request.pattern
  if exclusions.excludes path then .ok []
  else (fileEntryFromPath disk prior base path).map ([·])

def resolveWildcardWithCandidates (base : ResolvedBase) (pattern : String) (candidates : List Path) :
    Except CacheError (List FileEntry) := do
  let globset ← buildGlobset globs [pattern]
  (candidates.filter fun candidate =>
    globset candidate.toStr && !exclusions.excludes candidate.toStr).mapM
      fun path => fileEntryFromPath disk prior base path.toStr

def resolveSingleRequest (request : ResolveRequest) (base : ResolvedBase) :
    ResolveM (List FileEntry) :=
  match request.semantics with
  | .Literal => liftM (resolveLiteralRequest disk prior exclusions request base)
  | .Wildcard => do
    let candidates ← cachedInputCandidates disk request.baseDir
    liftM (resolveWildcardWithCandidates disk globs prior exclusions base request.pattern candidates)

/-- `strip_suffix_components`, for a suffix of that many components. -/
def popComponents : Nat → Path → Path
  | 0, path => path
  | n + 1, path =>
    match path.parent with
    | some parent => popComponents n parent
    | none => path

/-- One request: the worktree root of its base directory, and its entries. -/
def resolveRequestEntries (request : ResolveRequest) : ResolveM (Path × List FileEntry) := do
  let basePrefix ← qualifiedBaseDirPrefix disk request.baseDir
  let worktreeRoot := popComponents basePrefix.components.length request.baseDir
  let entries ← resolveSingleRequest disk globs prior exclusions request ⟨request.baseDir, basePrefix⟩
  return (worktreeRoot, entries)

/-! ## Deduplication -/

/-- Every root once, where it first comes. -/
def uniqueRoots (roots : List Path) : List Path :=
  roots.foldl (fun seen root => if root ∈ seen then seen else seen ++ [root]) []

def canonicalDedupeKey (worktreeRoots : List Path) (entryPath : String) : Option String :=
  (worktreeRoots.findSome? fun root => disk.canonicalize (root.join (.ofStr entryPath))).map
    fun path => normalizePath path.toStr

structure Deduped where
  seenPresent : List String
  seenAbsent : List String
  entries : List FileEntry

def dedupeStep (worktreeRoots : List Path) (s : Deduped) (entry : FileEntry) : Deduped :=
  if entry.absent then
    if entry.path ∈ s.seenAbsent then s
    else { s with seenAbsent := entry.path :: s.seenAbsent, entries := s.entries ++ [entry] }
  else
    let key := (canonicalDedupeKey disk worktreeRoots entry.path).getD entry.path
    if key ∈ s.seenPresent then s
    else { s with seenPresent := key :: s.seenPresent, entries := s.entries ++ [entry] }

def dedupeAndSortEntries (entries : List FileEntry) (worktreeRoots : List Path) : List FileEntry :=
  let deduped := entries.foldl (dedupeStep disk worktreeRoots) ⟨[], [], []⟩
  sortBy FileEntry.path deduped.entries

def resolveInputsM (requests : List ResolveRequest) (priorEntries : List FileEntry) :
    ResolveM (List FileEntry) := do
  if requests = [] then return []
  let prior := priorEntriesByPath priorEntries
  let exclusions ← liftM (Exclusions.compile globs (negations requests))
  let resolved ← (includes requests).mapM (resolveRequestEntries disk globs prior exclusions)
  return dedupeAndSortEntries disk (resolved.flatMap Prod.snd) (uniqueRoots (resolved.map Prod.fst))

/-- The entries, and the listing cache as the resolution leaves it. -/
def resolveInputsWithSemanticsAndOptions (requests : List ResolveRequest)
    (priorEntries : List FileEntry) (listingCache : Option ListingCache) :
    Except CacheError (List FileEntry) × Option ListingCache :=
  let r := resolveInputsM disk globs requests priorEntries ⟨∅, ∅, ∅, listingCache⟩
  (r.1, r.2.listing)

def resolveInputsWithSemantics (requests : List ResolveRequest) :
    Except CacheError (List FileEntry) :=
  (resolveInputsWithSemanticsAndOptions disk globs requests [] none).1

end Resolve

end Luchta.Impl
