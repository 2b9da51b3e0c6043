import Luchta.Impl.Hashing
import Luchta.Impl.InputPattern
import Luchta.Impl.Lockfile

/-!
# Package-dependency pairs

Which external dependencies a task's cache key covers: a filter selects roots among the declared
dependencies of some packages, and each selected root contributes its resolution and the full
closure of it. The manifests on disk and the glob library are parameters.
-/

namespace Luchta.Impl

open Luchta.Framework

inductive LockfileState
  | Absent
  | Parsed (lockfile : Lockfile)
  | Failed (message : String)

structure PackageJsonExternalDeps where
  dependencies : HashMap String String
  devDependencies : HashMap String String
  optionalDependencies : HashMap String String

/-- What gathering reads from outside. -/
structure Manifests where
  /-- `read_package_json_external_deps`, by the path of the package. -/
  readPackageJson : String → Except String PackageJsonExternalDeps
  /-- A glob set of one glob, matched against names. -/
  glob : String → Except String (String → Bool)

structure SelectedDependencyRoot where
  name : String
  version : String
  originPackagePath : String
  deriving DecidableEq

namespace SelectedDependencyRoot

/-- The derived order compares the fields from the first to the last. -/
def sortKey (r : SelectedDependencyRoot) : String ×ₗ String ×ₗ String :=
  toLex (r.name, toLex (r.version, r.originPackagePath))

theorem sortKey_injective : Function.Injective sortKey := by
  intro r s h
  cases r
  cases s
  simpa [sortKey] using h

instance : LinearOrder SelectedDependencyRoot := LinearOrder.lift' sortKey sortKey_injective

end SelectedDependencyRoot

variable (m : Manifests) (rs : RandomState)

/-! ## Selected roots -/

def collectExternalDependencies (packageJson : PackageJsonExternalDeps) : List (String × String) :=
  let pairs (deps : HashMap String String) := (rs.permute deps.entries).map fun e => (e.1, e.2)
  pairs packageJson.dependencies ++ pairs packageJson.devDependencies ++
    pairs packageJson.optionalDependencies

def dependencyRootsFromPairs (dependencies : List (String × String)) (packagePath : String) :
    BTreeSet SelectedDependencyRoot :=
  BTreeSet.empty.extend (dependencies.map fun d => ⟨d.1, d.2, packagePath⟩)

def readExternalDependencyRoots (packagePath : String) :
    Except String (BTreeSet SelectedDependencyRoot) := do
  let packageJson ← m.readPackageJson packagePath
  return dependencyRootsFromPairs (collectExternalDependencies rs packageJson) packagePath

/-- The roots of several packages, from the first to the last. -/
def readUpstreamRoots : List (Except WorkspaceError PackageNode) → BTreeSet SelectedDependencyRoot →
    Except String (BTreeSet SelectedDependencyRoot)
  | [], candidates => .ok candidates
  | node :: nodes, candidates => do
    let upstream ← node.mapError WorkspaceError.message
    let roots ← readExternalDependencyRoots m rs upstream.path
    readUpstreamRoots nodes (candidates.extend roots.toList)

def insertMatchingDependencyRoots (selected candidates : BTreeSet SelectedDependencyRoot)
    (glob : String) : Except String (BTreeSet SelectedDependencyRoot) := do
  let globset ← m.glob glob
  return selected.extend (candidates.toList.filter fun candidate => globset candidate.name)

def specificPackagePath (pg : Option PackageGraph) (repoRoot : String) (packageName : PackageName)
    (pattern : String) : Except String String :=
  let unknown : String :=
    "unknown package '" ++ packageName.name ++ "' in dependency pattern '" ++ pattern ++ "'"
  if packageName.isRoot then .ok repoRoot
  else
    match pg with
    | none => .error unknown
    | some graph => ((graph.node packageName).mapError fun _ => unknown).map PackageNode.path

/-- The declared dependencies a pattern selects from. -/
def patternCandidates (package : PackageNode) (pg : Option PackageGraph)
    (repoRoot rawPattern : String) (externalDependencies : List (String × String)) :
    InputPattern → Except String (BTreeSet SelectedDependencyRoot)
  | .SamePackage _ => .ok (dependencyRootsFromPairs externalDependencies package.path)
  | .DirectUpstream glob =>
    match pg with
    | none => .error ("dependency pattern '^" ++ glob ++ "' requires package graph")
    | some graph => do
      let upstreams ← (graph.dependenciesOf package.name).mapError WorkspaceError.message
      readUpstreamRoots m rs (upstreams.map .ok) .empty
  | .TransitiveUpstream glob =>
    match pg with
    | none => .error ("dependency pattern '^^" ++ glob ++ "' requires package graph")
    | some graph => do
      let names ← (graph.transitiveDependenciesOf package.name).mapError WorkspaceError.message
      readUpstreamRoots m rs (((rs.permute names).filter (· ≠ package.name)).map graph.node) .empty
  | .Specific packageName _ => do
    let targetPath ← specificPackagePath pg repoRoot packageName rawPattern
    readExternalDependencyRoots m rs targetPath
  | .Root _ => readExternalDependencyRoots m rs repoRoot

/-- The roots that the patterns select, from the first to the last. -/
def selectDependencyRoots (package : PackageNode) (pg : Option PackageGraph) (repoRoot : String)
    (externalDependencies : List (String × String)) :
    List String → BTreeSet SelectedDependencyRoot →
      Except String (BTreeSet SelectedDependencyRoot)
  | [], selected => .ok selected
  | rawPattern :: rest, selected => do
    let pattern ← InputPattern.fromStr rawPattern
    let candidates ← patternCandidates m rs package pg repoRoot rawPattern externalDependencies pattern
    let selected ← insertMatchingDependencyRoots m selected candidates pattern.path
    selectDependencyRoots package pg repoRoot externalDependencies rest selected

/-! ## Pairs -/

def shouldSkipDependencySpec (name version : String) (workspaceNames workspacePaths : BTreeSet String) :
    Bool :=
  startsWithStr version "workspace:" || startsWithStr version "link:" ||
    startsWithStr version "portal:" || startsWithStr version "file:" ||
    decide (name ∈ workspaceNames) ||
    workspacePaths.toList.any fun path => containsStr version path

/-- A selected root that resolves contributes its resolution and the full closure of it. -/
def collectDepPairsForPackage (lockfile : Lockfile) (workspaceNames workspacePaths : BTreeSet String)
    (root : SelectedDependencyRoot) (pairs : BTreeSet (String ×ₗ String)) :
    Except String (BTreeSet (String ×ₗ String)) :=
  if shouldSkipDependencySpec root.name root.version workspaceNames workspacePaths then .ok pairs
  else
    match lockfile.resolvePackage root.originPackagePath root.name root.version with
    | .error e => .error e.message
    | .ok none => .ok pairs
    | .ok (some resolved) =>
      match lockfile.transitiveDependencies resolved.key with
      | .error e => .error e.message
      | .ok deps => .ok ((pairs.insert (toLex (root.name, resolved.lockIdentity))).extend deps.toList)

def collectDepPairs (lockfile : Lockfile) (workspaceNames workspacePaths : BTreeSet String) :
    List SelectedDependencyRoot → BTreeSet (String ×ₗ String) →
      Except String (BTreeSet (String ×ₗ String))
  | [], pairs => .ok pairs
  | root :: roots, pairs => do
    let pairs ← collectDepPairsForPackage lockfile workspaceNames workspacePaths root pairs
    collectDepPairs lockfile workspaceNames workspacePaths roots pairs

/-- The direct dependencies of the package in the workspace, and the package itself. -/
def workspaceClosure (package : PackageNode) (pg : Option PackageGraph) :
    Except String (List PackageNode) :=
  match pg with
  | none => .ok [package]
  | some graph =>
    ((graph.dependenciesOf package.name).mapError WorkspaceError.message).map (· ++ [package])

def gatherPkgDepPairsFiltered (package : PackageNode) (pg : Option PackageGraph) (repoRoot : String)
    (lockfile : LockfileState) (dependencyPatterns : List String) :
    Except String (List (String × String)) :=
  match lockfile with
  | .Absent => .ok []
  | .Failed message => .error message
  | .Parsed lockfile => do
    let packageJson ← m.readPackageJson package.path
    let externalDependencies := collectExternalDependencies rs packageJson
    let closure ← workspaceClosure package pg
    let workspaceNames := BTreeSet.empty.extend (closure.map fun node => node.name.name)
    let workspacePaths := BTreeSet.empty.extend (closure.map PackageNode.path)
    let selectedRoots ←
      selectDependencyRoots m rs package pg repoRoot externalDependencies dependencyPatterns .empty
    let pairs ← collectDepPairs lockfile workspaceNames workspacePaths selectedRoots.toList .empty
    return pairs.toList.map ofLex

def gatherPkgDepPairs (package : PackageNode) (pg : Option PackageGraph) (lockfile : LockfileState) :
    Except String (List (String × String)) :=
  gatherPkgDepPairsFiltered m rs package pg package.path lockfile ["**/*"]

end Luchta.Impl
