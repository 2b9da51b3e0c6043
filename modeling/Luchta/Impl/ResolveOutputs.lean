import Luchta.Impl.ResolveInputs

/-!
# Resolving outputs

Output patterns select below one package: literals are taken as they are spelled, globs select from
what is there, and negations exclude from both. The listing only enters the directories that the
patterns can lead to.
-/

namespace Luchta.Impl

open Luchta.Framework

/-! ## Candidates -/

def isGlobMetachar (c : Char) : Bool := c ∈ ['*', '?', '[', '{', ']', '}']

/-- The parts between the characters that `sep` holds of. -/
def splitWhen (sep : Char → Bool) : List Char → List (List Char)
  | [] => [[]]
  | c :: cs =>
    if sep c then [] :: splitWhen sep cs
    else
      match splitWhen sep cs with
      | [] => [[c]]
      | part :: parts => (c :: part) :: parts

def staticPrefixFrom (names : List String) : List (List Char) → Option (List String)
  | [] => some names
  | segment :: segments =>
    if segment = [] ∨ segment = ['.'] then staticPrefixFrom names segments
    else if segment = ['.', '.'] then none
    else if segment.any isGlobMetachar then (if names = [] then none else some names)
    else staticPrefixFrom (names ++ [String.ofList segment]) segments

/-- The directory that a pattern cannot leave; a backslash separates like a slash. -/
def staticPrefix (pattern : String) : Option Path :=
  (staticPrefixFrom [] (splitWhen (fun c => c = '/' || c = '\\') pattern.toList)).map fun names =>
    ⟨names.map .normal⟩

/-- No result where some pattern needs the whole package. -/
def prefixUnion (patterns : List String) : Option (List Path) :=
  if patterns = [] then some []
  else
    ((patterns.filter (!isNegated ·)).mapM staticPrefix).map fun prefixes =>
      dedup (sortBy Path.toStr prefixes)

/-- The regular files that a walk comes across. -/
def walkFiles (entries : List WalkEntry) : Except CacheError (List (List FileName)) := do
  let typed ← entries.mapM fun entry => entry.fileType.map fun fileType => (entry.names, fileType)
  return (typed.filter (·.2 = .file)).map Prod.fst

section Resolve

variable (disk : Disk)

def exists? (path : Path) : Bool :=
  match disk.metadata path with
  | .ok (some _) => true
  | _ => false

def walkOutputCandidates (baseDir : Path) : Except CacheError (List Path) := do
  let files ← walkFiles (disk.walk baseDir)
  return sortBy id (files.map .ofNames)

def listBelow (baseDir walkPrefix : Path) : Except CacheError (List Path) :=
  if exists? disk (baseDir.join walkPrefix) then do
    let files ← walkFiles (disk.walk (baseDir.join walkPrefix))
    return files.map fun names => ⟨walkPrefix.components ++ (Path.ofNames names).components⟩
  else .ok []

/-- `FilesystemLister::list`. -/
def listOutputCandidates (baseDir : Path) : Option (List Path) → Except CacheError (List Path)
  | none => walkOutputCandidates disk baseDir
  | some prefixes => do
    let listed ← prefixes.mapM (listBelow disk baseDir)
    return (BTreeSet.extend .empty listed.flatten).toList

/-! ## Entries -/

/-- Paths with the spelling that came first. -/
abbrev Spellings := BTreeMap Path String

def Spellings.insert (s : Spellings) (text : String) : Spellings :=
  if BTreeMap.containsKey s (.ofStr text) then s else BTreeMap.insert s (.ofStr text) text

def Spellings.extend (s : Spellings) (texts : List String) : Spellings := texts.foldl insert s

def Spellings.texts (s : Spellings) : List String := s.entries.map Prod.snd

variable (globs : GlobLibrary) (prior : HashMap String FileEntry)

def literalPaths (patterns : List String) : List String :=
  ((patterns.filter (!isNegated ·)).filter (classifyPattern · = .Literal)).map unescapeLiteral

def globPatterns (patterns : List String) : List String :=
  (patterns.filter (!isNegated ·)).filter (classifyPattern · = .Wildcard)

def exclusionBodies (patterns : List String) : List String :=
  (patterns.filter isNegated).map fun pattern => (splitNegation pattern).2

/-- The texts of the candidates that a glob selects. -/
def globbed (patterns : List String) (candidates : List Path) : Except CacheError (List String) :=
  if patterns = [] then .ok []
  else do
    let globset ← buildGlobset globs patterns
    return (candidates.map Path.toStr).filter (globset ·)

/-- The selected paths, as they are spelled. -/
def resolvedPaths (patterns : List String) (candidates : List Path) :
    Except CacheError (List String) := do
  let exclusions ← Exclusions.compile globs (exclusionBodies patterns)
  let matched ← globbed globs (globPatterns patterns) candidates
  let resolved := (Spellings.extend .empty (literalPaths patterns)).extend matched
  return resolved.texts.filter (!exclusions.excludes ·)

def resolveWithCandidates (baseDir : Path) (patterns : List String) (candidates : List Path) :
    Except CacheError (List FileEntry) :=
  if patterns = [] then .ok []
  else do
    let paths ← resolvedPaths globs patterns candidates
    paths.mapM (fileEntryFromPath disk prior ⟨baseDir, ⟨[]⟩⟩)

/-- With a listing cache that has not listed the directory yet. -/
def resolveOutputsWithOptions (baseDir : Path) (patterns : List String)
    (priorEntries : List FileEntry) : Except CacheError (List FileEntry) := do
  let candidates ← listOutputCandidates disk baseDir (prefixUnion patterns)
  resolveWithCandidates disk globs (priorEntriesByPath priorEntries) baseDir patterns candidates

def resolveOutputs (baseDir : Path) (patterns : List String) : Except CacheError (List FileEntry) :=
  resolveOutputsWithOptions disk globs baseDir patterns []

end Resolve

example : prefixUnion ["dist/types/**", "dist/schema.json", "dist/types/*.d.ts", "!dist/tmp/**"] =
    some [⟨[.normal "dist", .normal "schema.json"]⟩, ⟨[.normal "dist", .normal "types"]⟩] := by
  decide

end Luchta.Impl
