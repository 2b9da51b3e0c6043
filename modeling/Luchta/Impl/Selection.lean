import Luchta.Framework.Fallible
import Luchta.Impl.Resolution
import Luchta.Impl.ResolveInputs
import Luchta.Impl.Waves
import Mathlib.Data.Finset.Basic

/-!
# Selecting tasks

Which tasks of the graph a command line asks for (`run.rs`). Tasks and packages are asked for by globs, which are
left to the glob library; a root task only with the flag for it. What changed since a revision may narrow the
selection further. A request without wildcards that nothing matches is an error, unless there is a reason for it.

* `packageMatches`: whether a task is in the scope of a request, whatever its name.
* `collectMatchingTaskIds`: the tasks that are asked for.
* `reportUnmatchedRequest`: a note for a request that nothing matches, or an error with a hint.
* `collectRequestedSubgraph`: the tasks that are run, and the notes.

Left out: the colours of notes, and notes that come before an error.
-/

namespace Luchta.Impl.Selection

open Luchta.Framework

/-- The selection of a user. -/
structure TaskSelection where
  requestedTasks : List String
  packages : List String
  topLevel : Bool
  deriving DecidableEq

/-- What is affected by the changes since a revision. -/
structure SinceAffected where
  packages : Finset PackageName
  affectedRootTasks : Finset TaskName
  rootTasksWithInputs : Finset TaskName
  deriving DecidableEq

/-- A root task is filtered only if it declares inputs. -/
def SinceAffected.rootTaskPasses (affected : SinceAffected) (task : TaskName) : Bool :=
  task ∉ affected.rootTasksWithInputs || task ∈ affected.affectedRootTasks

inductive SelectionError
  | InvalidGlob (pattern error : String)
  | BuildGlobSet (error : String)
  | NoPackagesMatched (packages : List String)
  | TopLevelTask (requested : String)
  | PackageTask (requested : String)
  | TaskNotFound (requested : String)
  | NoTasksMatched (packages tasks : List String)
  deriving DecidableEq

def SelectionError.message : SelectionError → String
  | InvalidGlob pattern error => "invalid glob pattern '" ++ pattern ++ "': " ++ error
  | BuildGlobSet error => "failed to build glob set: " ++ error
  | NoPackagesMatched packages =>
    "No packages matched: [" ++ ", ".intercalate packages ++ "]. -p matches package names, not paths."
  | TopLevelTask requested =>
    "task '" ++ requested ++ "' is a top-level task; pass -T/--top-level to select it"
  | PackageTask requested =>
    "task '" ++ requested ++
      "' is a package task, not a top-level task; drop -T (or pass -p <package>) to select it"
  | TaskNotFound requested => "task '" ++ requested ++ "' not found in task graph"
  | NoTasksMatched packages tasks =>
    "No tasks matched filter: packages=[" ++ ", ".intercalate packages ++ "] tasks=[" ++
      ", ".intercalate tasks ++ "]"

/-! ## Globs -/

/-- The glob library, under its default options. -/
structure PlainGlobs where
  new : String → Except String Glob
  build : List Glob → Except String Glob

def buildGlobset (globs : PlainGlobs) (patterns : List String) : Except SelectionError Glob := do
  let built ← patterns.mapM fun pattern => (globs.new pattern).mapError (.InvalidGlob pattern)
  (globs.build built).mapError .BuildGlobSet

def isLiteralPattern (s : String) : Bool :=
  !s.toList.any (· ∈ ['*', '?', '[', ']', '\x7b', '\x7d', '!', '\\'])

/-! ## Scopes -/

/-- What a selection comes to, with its globs built. -/
structure SelectionCriteria where
  taskGlobs : Glob
  packageGlobs : Glob
  matchAllNonRootPackages : Bool
  topLevel : Bool
  sinceAffected : Option SinceAffected

def packageMatches (taskId : TaskId) (criteria : SelectionCriteria) : Bool :=
  let isRoot := taskId.isRoot
  let matchesNonRootPackage :=
    if criteria.matchAllNonRootPackages then !isRoot
    else !isRoot && criteria.packageGlobs taskId.package.name
  let baseMatch :=
    match criteria.topLevel, criteria.matchAllNonRootPackages with
    | true, false => matchesNonRootPackage || isRoot
    | true, true => isRoot
    | false, false => matchesNonRootPackage
    | false, true => !isRoot
  let passesSince := criteria.sinceAffected.all fun affected =>
    if isRoot then affected.rootTaskPasses taskId.task else taskId.package ∈ affected.packages
  baseMatch && passesSince

def collectMatchingTaskIds (availableNodes : List TaskNode) (criteria : SelectionCriteria) : List TaskId :=
  ((availableNodes.filter fun node => criteria.taskGlobs node.id.task.name).filter
    fun node => packageMatches node.id criteria).map TaskNode.id

def collectMatchedPackageNames (availableNodes : List TaskNode) (packages : List String)
    (packageGlobs : Glob) : List PackageName :=
  if packages = [] then []
  else
    (((availableNodes.map TaskNode.id).filter (!·.isRoot)).map TaskId.package).filter fun name => packageGlobs name.name

/-! ## Requests that nothing matches -/

def requestsTopLevelTaskWithoutFlag (criteria : SelectionCriteria) (existsAtRoot existsAsPackageTask : Bool) : Bool :=
  !criteria.topLevel && existsAtRoot && !existsAsPackageTask

def requestsPackageTaskWithTopLevelFlag (criteria : SelectionCriteria) (existsAsPackageTask : Bool) : Bool :=
  criteria.topLevel && criteria.matchAllNonRootPackages && existsAsPackageTask

section Unmatched

variable (requested : String) (criteria : SelectionCriteria) (availableNodes : List TaskNode)

def wrongScopeHint : Option SelectionError :=
  let existsAtRoot := availableNodes.any fun node => node.id.isRoot && node.id.task.name = requested
  let existsAsPackageTask := availableNodes.any fun node => !node.id.isRoot && node.id.task.name = requested
  if requestsTopLevelTaskWithoutFlag criteria existsAtRoot existsAsPackageTask then some (.TopLevelTask requested)
  else if requestsPackageTaskWithTopLevelFlag criteria existsAsPackageTask then some (.PackageTask requested)
  else none

def filteredBySinceNote : Option String :=
  if criteria.sinceAffected.isNone then none
  else
    let withoutSince := { criteria with sinceAffected := none }
    if availableNodes.any fun node => node.id.task.name = requested && packageMatches node.id withoutSince &&
        !packageMatches node.id criteria then
      some ("note: task '" ++ requested ++ "' matched no task affected by --since; nothing to run")
    else none

/-- The note that is printed. -/
def reportUnmatchedRequest (pruned : List PrunedTask) : Except SelectionError String :=
  if pruned.any fun entry => entry.taskId.task.name = requested && packageMatches entry.taskId criteria then
    .ok ("note: task '" ++ requested ++ "' was pruned from every package during resolution; nothing to run")
  else
    match filteredBySinceNote requested criteria availableNodes with
    | some sinceNote => .ok sinceNote
    | none =>
      match wrongScopeHint requested criteria availableNodes with
      | some hint => .error hint
      | none => .error (.TaskNotFound requested)

end Unmatched

def validateLiteralTaskRequests (requestedIds : List TaskId) (selection : TaskSelection) (pruned : List PrunedTask)
    (criteria : SelectionCriteria) (availableNodes : List TaskNode) : Except SelectionError (List String) :=
  ((selection.requestedTasks.filter isLiteralPattern).filter fun requested =>
    !requestedIds.any (·.task.name = requested)).mapM fun requested =>
      reportUnmatchedRequest requested criteria availableNodes pruned

def allLiteralTaskRequests (requestedTasks : List String) : Bool :=
  !requestedTasks.isEmpty && requestedTasks.all isLiteralPattern

/-! ## The selection -/

/-- Tasks in the scope of a request that it does not select. -/
def selectionPrunes (requestedIds : List TaskId) (selection : TaskSelection) (criteria : SelectionCriteria)
    (availableNodes : List TaskNode) : List PrunedTask :=
  let requestedTaskNames := requestedIds.map (·.task.name)
  (((availableNodes.filter (·.id ∉ requestedIds)).filter fun node => packageMatches node.id criteria).filter fun node =>
    node.id.task.name ∈ selection.requestedTasks || node.id.task.name ∈ requestedTaskNames).map fun node =>
      ⟨node.id, .Pruned (some "not in requested subgraph")⟩

structure CollectSubgraphRequest where
  taskGraph : TaskGraph
  selection : TaskSelection
  pruned : List PrunedTask
  sinceAffected : Option SinceAffected
  expandDependencies : Bool

/-- The tasks that are selected, and the notes that are printed. -/
def collectRequestedSubgraph (globs : PlainGlobs) (rs : RandomState) (request : CollectSubgraphRequest) :
    Except SelectionError (List TaskId × List String) := do
  let selection := request.selection
  let packageGlobs ← buildGlobset globs selection.packages
  let taskGlobs ← buildGlobset globs selection.requestedTasks
  let availableNodes := request.taskGraph.graph.nodes
  let matchedPackageNames := collectMatchedPackageNames availableNodes selection.packages packageGlobs
  if !selection.packages.isEmpty && matchedPackageNames.isEmpty then
    throw (.NoPackagesMatched selection.packages)
  else
    let criteria : SelectionCriteria :=
      ⟨taskGlobs, packageGlobs, selection.packages.isEmpty, selection.topLevel, request.sinceAffected⟩
    let requestedIds := collectMatchingTaskIds availableNodes criteria
    let pruned := request.pruned ++ selectionPrunes requestedIds selection criteria availableNodes
    let notes ← validateLiteralTaskRequests requestedIds selection pruned criteria availableNodes
    if requestedIds.isEmpty && !allLiteralTaskRequests selection.requestedTasks then
      throw (.NoTasksMatched selection.packages selection.requestedTasks)
    else if request.expandDependencies then
      return (expandWithDependencies rs request.taskGraph requestedIds, notes)
    else return (requestedIds, notes)

end Luchta.Impl.Selection
