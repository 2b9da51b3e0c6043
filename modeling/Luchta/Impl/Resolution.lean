import Luchta.Framework.Collect
import Luchta.Framework.Fallible
import Luchta.Framework.Sorted
import Luchta.Impl.Pipeline
import Luchta.Impl.WorkerProtocol

/-!
# Resolving tasks

Each task with a worker is sent to that worker, which accepts, modifies, prunes or rejects it. The
round trips run concurrently; their outcomes are collected first and then applied one after
another. `BuildsResolved` relates a call of `build_resolved` to its possible results: replies may
arrive in any order, and the map they are collected in may be iterated in any order.
-/

namespace Luchta.Impl

open Luchta.Framework

/-! ## Requests and decisions -/

/-- What a request says about the package of its task. -/
structure PackageResolveInfo where
  cwd : Option String
  scripts : List String
  deriving DecidableEq

/-- A reply, or why there is none. -/
abbrev ResolveOutcome := Except String ResolveResult

/-! ## Pruned tasks -/

inductive PruneOutcome
  | Pruned (reason : Option String)
  | Rejected (message : String)
  deriving DecidableEq

def PruneOutcome.describe : PruneOutcome → String
  | Pruned reason => reason.getD "pruned by worker"
  | Rejected message => message

structure PrunedTask where
  taskId : TaskId
  outcome : PruneOutcome
  deriving DecidableEq

/-- What tasks with this worker depend on. -/
structure WorkerDefinition where
  dependsOn : List DependsOn
  deriving DecidableEq

/-! ## Sending the requests -/

/-- A task, its worker and what is sent to it. -/
structure TaskRequest where
  taskId : TaskId
  worker : String
  request : ResolveTask
  deriving DecidableEq

def resolveTask (packages : HashMap PackageName PackageResolveInfo) (mode : ResolveMode)
    (taskId : TaskId) (definition : TaskDefinition) : ResolveTask :=
  let info := packages.lookup taskId.package
  { id := taskId.toString
    name := taskId.task.name
    command := (definition.command.map trim).getD ""
    package := taskId.package.name
    cwd := info.bind PackageResolveInfo.cwd
    scripts := (info.map PackageResolveInfo.scripts).getD []
    inputs := definition.inputs
    mode := mode }

namespace ResolvedPipeline

variable (rp : ResolvedPipeline)

/-- The requests, sorted by the text of their ids. -/
def requests (orders : BuildOrders) (packages : HashMap PackageName PackageResolveInfo)
    (mode : ResolveMode) : List TaskRequest :=
  (sortBy TaskId.toString (orders.tasksById.permute rp.tasksById.keys)).filterMap fun taskId =>
    (rp.tasksById.lookup taskId).bind fun definition => definition.worker.map fun worker =>
      ⟨taskId, worker, resolveTask packages mode taskId definition⟩

/-- `available_parallelism`, where it is known. -/
def maxInFlight (parallelism : Option Nat) : Nat := max (parallelism.getD 4) 1

abbrev Outcomes := HashMap TaskId ResolveOutcome

def collectOutcome (resolver : String → ResolveTask → ResolveOutcome) (outcomes : Outcomes)
    (request : TaskRequest) : Outcomes :=
  outcomes.insert request.taskId (resolver request.worker request.request)

/-- The requests in flight; the label of a step is which of them is answered. -/
def resolving (resolver : String → ResolveTask → ResolveOutcome) (parallelism : Option Nat)
    (requests : List TaskRequest) : System (Collecting TaskRequest Outcomes) Nat :=
  Collecting.system (collectOutcome resolver) (maxInFlight parallelism) requests ∅

/-! ## Applying the outcomes -/

def applyOutcome (mode : ResolveMode) (s : ResolvedPipeline × List PrunedTask)
    (e : TaskId × ResolveOutcome) : Except ResolveError (ResolvedPipeline × List PrunedTask) :=
  match e.2 with
  | .error message => .error (.Worker e.1 message)
  | .ok .Accept => .ok s
  | .ok (.Modify modification) =>
    .ok ({ s.1 with
      inputsFromWorkerById :=
        if modification.inputs.isSome then s.1.inputsFromWorkerById.insert e.1 true
        else s.1.inputsFromWorkerById
      tasksById := s.1.tasksById.modify e.1 modification.applyTo }, s.2)
  | .ok (.Prune reason) => .ok (s.1, s.2 ++ [⟨e.1, .Pruned reason⟩])
  | .ok (.Reject message) =>
    if mode = .Check then .error (.Rejected e.1 message)
    else .ok (s.1, s.2 ++ [⟨e.1, .Rejected message⟩])

def applyOutcomes (mode : ResolveMode) (outcomes : List (TaskId × ResolveOutcome)) :
    Except ResolveError (ResolvedPipeline × List PrunedTask) :=
  outcomes.foldlM (applyOutcome mode) (rp, [])

/-- The collected outcomes, sorted by the text of their ids. Ids are distinct keys: taking an
outcome out of the map leaves the others where they are. -/
def sortedOutcomes (rs : RandomState) (outcomes : Outcomes) : List (TaskId × ResolveOutcome) :=
  (sortBy TaskId.toString (rs.permute outcomes.keys)).filterMap fun taskId =>
    (outcomes.lookup taskId).map fun outcome => (taskId, outcome)

/-! ## Worker dependencies -/

/-- What a worker depends on is appended, unless it is there already. -/
def injectDependencies (workerDefinitions : HashMap String WorkerDefinition)
    (definition : TaskDefinition) : TaskDefinition :=
  match definition.worker.bind workerDefinitions.lookup with
  | none => definition
  | some worker => { definition with
      dependsOn := worker.dependsOn.foldl
        (fun existing dependency =>
          if dependency ∈ existing then existing else existing ++ [dependency])
        definition.dependsOn }

def injectWorkerDependencies (workerDefinitions : HashMap String WorkerDefinition) :
    ResolvedPipeline :=
  { rp with tasksById := rp.tasksById.mapWithKey fun _ => injectDependencies workerDefinitions }

/-! ## Prunes -/

/-- A package whose last task name goes loses its entry. -/
def removeTaskName (taskNamesByPackage : HashMap PackageName (Finset TaskName)) (taskId : TaskId) :
    HashMap PackageName (Finset TaskName) :=
  match taskNamesByPackage.lookup taskId.package with
  | none => taskNamesByPackage
  | some taskNames =>
    let taskNames := taskNames.erase taskId.task
    if taskNames = ∅ then taskNamesByPackage.erase taskId.package
    else taskNamesByPackage.insert taskId.package taskNames

def applyPrune (entry : PrunedTask) : ResolvedPipeline :=
  { rp with
    pruneReasonsById := rp.pruneReasonsById.insert entry.taskId entry.outcome.describe
    tasksById := rp.tasksById.erase entry.taskId
    taskNamesByPackage := removeTaskName rp.taskNamesByPackage entry.taskId
    rootTaskNames :=
      if entry.taskId.isRoot then rp.rootTaskNames.erase entry.taskId.task else rp.rootTaskNames }

def applyPrunes (pruned : List PrunedTask) : ResolvedPipeline := pruned.foldl applyPrune rp

end ResolvedPipeline

/-! ## Building a resolved graph -/

/-- The arguments of `build_resolved`. -/
structure BuildArgs where
  packageGraph : PackageGraph
  pipeline : HashMap TaskName TaskDefinition
  packages : HashMap PackageName PackageResolveInfo
  workerDefinitions : HashMap String WorkerDefinition
  resolver : String → ResolveTask → ResolveOutcome
  mode : ResolveMode

namespace TaskGraph

/-- What is done with the outcomes: they are applied, worker dependencies are injected, and the
pruned tasks are removed before the graph is built. -/
def finishResolved (ts : Toposort TaskNode) (orders : BuildOrders) (args : BuildArgs)
    (rp : ResolvedPipeline) (outcomes : List (TaskId × ResolveOutcome)) :
    Except EngineError (TaskGraph × List PrunedTask) := do
  let (resolved, pruned) ← (rp.applyOutcomes args.mode outcomes).mapError .resolve
  let resolved := (resolved.injectWorkerDependencies args.workerDefinitions).applyPrunes pruned
  let graph ← fromResolvedPipeline ts orders args.packageGraph resolved
  return (graph, pruned)

/-- The results of `build_resolved`: the replies are collected until none is in flight. -/
def BuildsResolved (tsPackage : Toposort PackageNode) (tsTask : Toposort TaskNode)
    (orders : BuildOrders) (args : BuildArgs)
    (result : Except EngineError (TaskGraph × List PrunedTask)) : Prop :=
  match ResolvedPipeline.build tsPackage orders args.packageGraph args.pipeline with
  | .error e => result = .error e
  | .ok rp => ∃ (parallelism : Option Nat) (rs : RandomState) (s : Collecting TaskRequest _),
      Reachable (ResolvedPipeline.resolving args.resolver parallelism
        (rp.requests orders args.packages args.mode)) s ∧ s.Finished ∧
      result = finishResolved tsTask orders args rp (ResolvedPipeline.sortedOutcomes rs s.collected)

end TaskGraph

end Luchta.Impl
