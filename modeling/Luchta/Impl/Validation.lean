import Luchta.Impl.InputPattern
import Luchta.Impl.Resolution
import Luchta.Impl.ResolveInputs

/-!
# Validating tasks

What `luchta check` reports about the tasks of a workspace: dead dependency references, commands
without a worker, workers that are not defined, and `cacheFiles` that cannot be. References are
looked up in the name tables of the resolved pipeline; the graph is not built.
-/

namespace Luchta.Impl

open Luchta.Framework

/-! ## Diagnostics -/

inductive DeadDependencyReason
  | UnknownTaskEverywhere (task : TaskName)
  | UnknownTaskInPackage (package : PackageName) (task : TaskName)
  | UnknownPackage (package : PackageName)
  | UnknownRootTask (task : TaskName)
  deriving DecidableEq

def DeadDependencyReason.toString : DeadDependencyReason → String
  | UnknownTaskEverywhere task => "task '" ++ task.name ++ "' not declared in any package"
  | UnknownTaskInPackage package task =>
    "task '" ++ task.name ++ "' not declared in package '" ++ package.name ++ "'"
  | UnknownPackage package => "package '" ++ package.name ++ "' not found in workspace"
  | UnknownRootTask task => "root task '#" ++ task.name ++ "' not declared"

inductive TaskValidationReason
  | DeadDependencyReference (dependency : DependsOn) (reason : DeadDependencyReason)
  | CommandWithoutWorker
  | UnknownWorker (worker : String)
  | CacheFilesRequireCache
  | InvalidCacheFilePattern (pattern : String)
  | CacheFileOverlap (cacheFile role pattern : String)
  deriving DecidableEq

def TaskValidationReason.toString : TaskValidationReason → String
  | DeadDependencyReference dependency reason =>
    dependency.asConfigString ++ ": " ++ reason.toString
  | CommandWithoutWorker =>
    "defines a command but no worker; specify a worker to execute it"
  | UnknownWorker worker => "references unknown worker '" ++ worker ++ "'"
  | CacheFilesRequireCache => "declares cacheFiles but does not enable cache"
  | InvalidCacheFilePattern pattern =>
    "cacheFiles pattern '" ++ pattern ++ "' must stay inside the task package"
  | CacheFileOverlap cacheFile role pattern =>
    "cacheFiles pattern '" ++ cacheFile ++ "' overlaps declared " ++ role ++ " pattern '" ++
      pattern ++ "'"

structure TaskValidationDiagnostic where
  taskId : TaskId
  reason : TaskValidationReason
  deriving DecidableEq

inductive DependencyValidationError
  | InvalidTasks (diagnostics : List TaskValidationDiagnostic)
  deriving DecidableEq

/-! ## Name tables -/

namespace ResolvedPipeline

variable (rp : ResolvedPipeline)

def containsPackageTask (packageName : PackageName) (taskName : TaskName) : Bool :=
  (rp.taskNamesByPackage.lookup packageName).any fun taskNames => taskName ∈ taskNames

def containsRootTask (taskName : TaskName) : Bool := taskName ∈ rp.rootTaskNames

def taskExistsInAnyPackage (taskName : TaskName) : Bool :=
  rp.taskNamesByPackage.entries.any fun e => taskName ∈ e.2

end ResolvedPipeline

/-! ## Dead references -/

/-- The lookups of a check; `pruned` is a hash set, listed in the order of its iteration. -/
structure DependencyContext where
  packageNames : List PackageName
  resolvedPipeline : ResolvedPipeline
  pruned : List TaskId

/-- A cycle of packages leaves their names empty. -/
def DependencyContext.new (ts : Toposort PackageNode) (pg : PackageGraph)
    (resolvedPipeline : ResolvedPipeline) (pruned : List TaskId) : DependencyContext where
  packageNames :=
    match pg.topologicalOrder ts with
    | .ok packages => packages.map PackageNode.name
    | .error _ => []
  resolvedPipeline := resolvedPipeline
  pruned := pruned

namespace DependencyContext

variable (c : DependencyContext)

def prunedHasId (taskId : TaskId) : Bool := taskId ∈ c.pruned

def prunedHasPackageTask (taskName : TaskName) : Bool :=
  c.pruned.any fun taskId => taskId.task = taskName ∧ taskId.isRoot = false

def prunedHasRootTask (taskName : TaskName) : Bool :=
  c.pruned.any fun taskId => taskId.task = taskName ∧ taskId.isRoot = true

def packageExists (package : PackageName) : Bool := package ∈ c.packageNames

def samePackageReason (sourceTaskId : TaskId) (taskName : TaskName) : Option DeadDependencyReason :=
  let (exists_, prunedMatch) :=
    if sourceTaskId.isRoot then
      (c.resolvedPipeline.containsRootTask taskName, c.prunedHasRootTask taskName)
    else
      (c.resolvedPipeline.taskExistsInAnyPackage taskName,
        c.prunedHasId ⟨sourceTaskId.package, taskName⟩ || c.prunedHasPackageTask taskName)
  if !exists_ && !prunedMatch then some (.UnknownTaskEverywhere taskName) else none

def specificReason (taskId : TaskId) : Option DeadDependencyReason :=
  if !c.packageExists taskId.package then some (.UnknownPackage taskId.package)
  else if !c.resolvedPipeline.containsPackageTask taskId.package taskId.task &&
      !c.prunedHasId taskId then
    some (.UnknownTaskInPackage taskId.package taskId.task)
  else none

def upstreamReason (taskName : TaskName) : Option DeadDependencyReason :=
  if !c.resolvedPipeline.taskExistsInAnyPackage taskName && !c.prunedHasPackageTask taskName then
    some (.UnknownTaskEverywhere taskName)
  else none

def rootReason (taskName : TaskName) : Option DeadDependencyReason :=
  if !c.resolvedPipeline.containsRootTask taskName && !c.prunedHasRootTask taskName then
    some (.UnknownRootTask taskName)
  else none

/-- Why a reference is dead, or `none` when it resolves or its target was pruned. -/
def deadDependencyReason (sourceTaskId : TaskId) : DependsOn → Option DeadDependencyReason
  | .SamePackage taskName => c.samePackageReason sourceTaskId taskName
  | .Specific taskId => c.specificReason taskId
  | .DirectUpstream taskName => c.upstreamReason taskName
  | .TransitiveUpstream taskName => c.upstreamReason taskName
  | .Root taskName => c.rootReason taskName

end DependencyContext

/-! ## Cache files -/

def patternStaysInPackage (pattern : String) : Bool :=
  let path := Path.ofStr pattern
  !path.isAbsolute && !path.components.any fun c => c = .parentDir ∨ c = .rootDir

def cacheFilePatternStaysInPackage (pattern : String) : Bool :=
  patternStaysInPackage (splitNegation pattern).2

section Globs

variable (globs : GlobLibrary)

def literalMatchesPattern (literal pattern : String) : Bool :=
  if classifyPattern literal ≠ .Literal then false
  else
    match globs.buildPathGlob pattern with
    | .ok glob => glob (unescapeLiteral literal)
    | .error _ => false

def patternsObviouslyOverlap (left right : String) : Bool :=
  let left := (splitNegation left).2
  let right := (splitNegation right).2
  if left = right then true
  else literalMatchesPattern globs left right || literalMatchesPattern globs right left

def literalIsExcluded (literal : String) (patterns : List String) : Bool :=
  let literal := unescapeLiteral literal
  (patterns.filter fun pattern => isNegated pattern).any fun pattern =>
    match globs.buildPathGlob (splitNegation pattern).2 with
    | .ok glob => glob literal
    | .error _ => false

def literalOverlapIsExcluded (cacheFile : String) (cacheFilePatterns : List String)
    (rolePattern : String) (rolePatterns : List String) : Bool :=
  (classifyPattern cacheFile = .Literal && literalIsExcluded globs cacheFile rolePatterns) ||
    (classifyPattern rolePattern = .Literal && literalIsExcluded globs rolePattern cacheFilePatterns)

def validateCacheFileRoleOverlaps (definition : TaskDefinition) (role : String)
    (rolePatterns : List String) : List TaskValidationReason :=
  let cacheFiles := definition.cacheFiles.filter fun pattern => !isNegated pattern
  let rolePatternsToCheck := rolePatterns.filter fun pattern => !isNegated pattern
  let pairs := cacheFiles.flatMap fun cacheFile =>
    rolePatternsToCheck.map fun pattern => (cacheFile, pattern)
  (pairs.filter fun e => patternsObviouslyOverlap globs e.1 e.2 &&
      !literalOverlapIsExcluded globs e.1 definition.cacheFiles e.2 rolePatterns).map
    fun e => .CacheFileOverlap e.1 role e.2

def validateCacheFileDefinition (definition : TaskDefinition) : List TaskValidationReason :=
  if definition.cacheFiles = [] then []
  else
    (if definition.cacheEnabled then [] else [.CacheFilesRequireCache]) ++
    (definition.cacheFiles.filter fun pattern => !cacheFilePatternStaysInPackage pattern).map
      .InvalidCacheFilePattern ++
    validateCacheFileRoleOverlaps globs definition "input" definition.inputs ++
    validateCacheFileRoleOverlaps globs definition "output" definition.outputs

end Globs

/-! ## Validation -/

def hasNonBlankCommand (definition : TaskDefinition) : Bool :=
  (definition.command.map trim).any fun command => !command.isEmpty

def workerReasons (workerDefinitions : HashMap String WorkerDefinition)
    (definition : TaskDefinition) : List TaskValidationReason :=
  match definition.worker with
  | some worker =>
    if (workerDefinitions.lookup worker).isSome then [] else [.UnknownWorker worker]
  | none => if hasNonBlankCommand definition then [.CommandWithoutWorker] else []

/-- What is wrong with one task. -/
def taskReasons (globs : GlobLibrary) (c : DependencyContext)
    (workerDefinitions : HashMap String WorkerDefinition) (taskId : TaskId)
    (definition : TaskDefinition) : List TaskValidationReason :=
  workerReasons workerDefinitions definition ++ validateCacheFileDefinition globs definition ++
    definition.dependsOn.filterMap fun dependency =>
      (c.deadDependencyReason taskId dependency).map (.DeadDependencyReference dependency)

namespace TaskGraph

/-- `validate_tasks_with_pruned`. It panics where the pipeline does not resolve: the outer error. -/
def validateTasksWithPruned (ts : Toposort PackageNode) (orders : BuildOrders) (globs : GlobLibrary)
    (pg : PackageGraph) (pipeline : HashMap TaskName TaskDefinition)
    (workerDefinitions : HashMap String WorkerDefinition) (pruned : List TaskId) :
    Except EngineError (Except DependencyValidationError Unit) := do
  let resolved ← ResolvedPipeline.build ts orders pg pipeline
  let resolved := resolved.injectWorkerDependencies workerDefinitions
  let resolved :=
    if pruned = [] then resolved
    else resolved.applyPrunes (pruned.map fun taskId => ⟨taskId, .Pruned none⟩)
  let context := DependencyContext.new ts pg resolved pruned
  let diagnostics := (orders.tasksById.permute resolved.tasksById.entries).flatMap fun e =>
    (taskReasons globs context workerDefinitions e.1 e.2).map fun reason =>
      (⟨e.1, reason⟩ : TaskValidationDiagnostic)
  return if diagnostics = [] then .ok ()
    else .error (.InvalidTasks (dedup (sortBy
      (fun d => toLex (d.taskId.toString, d.reason.toString)) diagnostics)))

/-- `validate_tasks`: nothing was pruned. -/
def validateTasks (ts : Toposort PackageNode) (orders : BuildOrders) (globs : GlobLibrary)
    (pg : PackageGraph) (pipeline : HashMap TaskName TaskDefinition)
    (workerDefinitions : HashMap String WorkerDefinition) :
    Except EngineError (Except DependencyValidationError Unit) :=
  validateTasksWithPruned ts orders globs pg pipeline workerDefinitions []

end TaskGraph

end Luchta.Impl
