import Luchta.Impl.DependencyPairs

/-!
# Changed dependency closures

Which packages `--since` counts as changed by the lockfile: those whose own unfiltered closure
differs between the lockfile at the base and the one in the working tree, and their dependents.
-/

namespace Luchta.Impl

open Luchta.Framework

variable (m : Manifests) (rs : RandomState) (pg : PackageGraph)

/-- Whether the closures of a package differ; closures that cannot be gathered count as changed. -/
def closureChanged (package : PackageNode) (base head : LockfileState) : Bool :=
  match gatherPkgDepPairs m rs package (some pg) base, gatherPkgDepPairs m rs package (some pg) head with
  | .ok basePairs, .ok headPairs => decide (canonicalPairs basePairs ≠ canonicalPairs headPairs)
  | _, _ => true

/-- A failed lockfile changes everything, and two absent ones nothing. -/
def packagesWithChangedDepClosures (packages : List PackageNode) (base head : LockfileState) :
    List PackageName :=
  match base, head with
  | .Failed _, _ | _, .Failed _ => packages.map PackageNode.name
  | .Absent, .Absent => []
  | base, head =>
    (packages.filter fun package => closureChanged m rs pg package base head).map PackageNode.name

/-- Every package but the workspace root. -/
def sinceCandidates : List PackageNode :=
  pg.graph.nodes.filter fun node => some node.name ≠ pg.rootPackage

/-- `since_affected`: packages changed by path or by lockfile and packages with declared inputs that
changed, each of the other two as it was computed, with their dependents. -/
def sinceAffected (changedByPaths inputMatched : List PackageName) (base head : LockfileState) :
    Except WorkspaceError (List PackageName) :=
  pg.transitiveDependentsOf (changedByPaths ++
    packagesWithChangedDepClosures m rs pg (sinceCandidates pg) base head ++ inputMatched)

end Luchta.Impl
