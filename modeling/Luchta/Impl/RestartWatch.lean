import Luchta.Framework.LexicalPath
import Luchta.Impl.ResolveInputs
import Luchta.Impl.Watcher

/-!
# Watching for a restart

Which paths restart a watched worker, and which directories are watched for them. A path is matched in
several spellings: as the event has it, below the working directory, and below that once both are
canonical.
-/

namespace Luchta.Impl.WorkerWatcher

open Luchta.Framework

/-! ## Matching -/

/-- Include patterns minus negated exclude patterns. -/
structure PathMatcher where
  includes : Glob
  excludes : Glob

/-- Compiles a pattern list, routing negated patterns into the exclude set. -/
def PathMatcher.new (globs : GlobLibrary) (patterns : List String) : Except String PathMatcher := do
  let built ← patterns.mapM fun pattern => do
    let glob ← globs.buildPathGlob (splitNegation pattern).2
    return ((splitNegation pattern).1, glob)
  let includes ← globs.buildSet ((built.filter fun e => !e.1).map Prod.snd)
  let excludes ← globs.buildSet ((built.filter fun e => e.1).map Prod.snd)
  return { includes := includes, excludes := excludes }

def PathMatcher.isMatch (m : PathMatcher) (path : Path) : Bool :=
  m.includes path.toStr && !m.excludes path.toStr

def matchesRelativeTo (globset : PathMatcher) (base : Option Path) (path : Path) : Bool :=
  (base.bind path.stripPrefix).any globset.isMatch

def matchesCanonicalRelative (globset : PathMatcher) (fs : FsView) (canonicalBase : Option Path)
    (path : Path) : Bool :=
  match fs.canonicalize path with
  | none => false
  | some canonicalPath => matchesRelativeTo globset canonicalBase canonicalPath

def pathMatches (globset : PathMatcher) (fs : FsView) (cwd canonicalCwd : Option Path) (path : Path) : Bool :=
  globset.isMatch path || matchesRelativeTo globset cwd path ||
    matchesCanonicalRelative globset fs canonicalCwd path

/-- Whether an event restarts the watched process; file reads never do. -/
def eventMatches (globset : PathMatcher) (fs : FsView) (cwd canonicalCwd : Option Path)
    (event : DebouncedEvent) : Bool :=
  !isAccessEvent event.kind && event.paths.any (pathMatches globset fs cwd canonicalCwd)

/-! ## Watch roots -/

def hasGlobMeta (component : List Char) : Bool := component.any fun c => c ∈ ['*', '?', '[', '\x7b']

/-- `str::strip_suffix` of one slash. -/
def trimTrailingSeparator (value : String) : String :=
  if value.toList.getLast? = some '/' then String.ofList value.toList.dropLast else value

/-- What stands before the first component with a wildcard. -/
def extractLiteralPrefix (pattern : String) : String :=
  let components := splitSlash pattern.toList
  if components.any hasGlobMeta then
    let before := components.takeWhile fun component => !hasGlobMeta component
    trimTrailingSeparator (String.ofList (before.flatMap fun component => component ++ ['/']))
  else trimTrailingSeparator pattern

/-- The first directory among a path, its components in reverse, and what `pop` leaves of it. -/
def existingDir (fs : FsView) : List Component → Option Path
  | [] => if fs.isDir ⟨[]⟩ then some ⟨[]⟩ else none
  | c :: rest =>
    if fs.isDir ⟨(c :: rest).reverse⟩ then some ⟨(c :: rest).reverse⟩
    else if c = .rootDir then none
    else existingDir fs rest

def findExistingAncestor (fs : FsView) (currentDir : Option Path) (pattern : String) : Option Path := do
  let literal := extractLiteralPrefix pattern
  if literal = "" then none
  let path := Path.ofStr literal
  let current ← if path.isAbsolute then some path else currentDir.map fun dir => dir.join path
  existingDir fs current.components.reverse

/-- The nearest existing ancestor of each positive pattern, or else the current directory. -/
def watchRoots (fs : FsView) (currentDir : Option Path) (globs : List String) : List Path :=
  (globs.filter fun pattern => !isNegated pattern).foldl (fun roots pattern =>
    let root := (findExistingAncestor fs currentDir pattern).getD ⟨[.curDir]⟩
    if root ∈ roots then roots else roots ++ [root]) []

end Luchta.Impl.WorkerWatcher
