import Luchta.Framework.Worklist
import Luchta.Impl.TaskGraph
import Mathlib.Data.Finset.Basic
import Mathlib.Data.Finset.Dedup

/-!
# Building task graphs

How a pipeline of task definitions becomes a task graph: its keys are parsed, each task is given to
the packages it is for, and each dependency reference is expanded to the tasks it denotes. The maps
on the way are iterated in arbitrary orders (`BuildOrders`).
-/

namespace Luchta.Impl

open Luchta.Framework

inductive PipelineKey
  | Global (task : TaskName)
  | Package (package : PackageName) (task : TaskName)
  | Root (task : TaskName)
  deriving DecidableEq

/-- The iteration orders of the maps. -/
structure BuildOrders where
  pipeline : RandomState
  globalTasks : RandomState
  packageTasks : RandomState
  rootTasks : RandomState
  tasksById : RandomState

/-! ## Pipeline keys -/

/-- `str::strip_prefix` of one character. -/
def stripPrefix (c : Char) (s : String) : Option String :=
  match s.toList with
  | [] => none
  | d :: rest => if d = c then some (String.ofList rest) else none

/-- `str::split_once`: what stands before and after the first `c`. -/
def splitOnce (c : Char) (s : String) : Option (String × String) :=
  match s.toList.dropWhile (· ≠ c) with
  | [] => none
  | _ :: after => some (String.ofList (s.toList.takeWhile (· ≠ c)), String.ofList after)

/-- Malformed keys are skipped, and those of packages that are not in the workspace. -/
def parsePipelineKey (packageNames : List PackageName) (rawKey : TaskName) : Option PipelineKey :=
  match stripPrefix '#' rawKey.name with
  | some task => if task = "" then none else some (.Root ⟨task⟩)
  | none =>
    match splitOnce '#' rawKey.name with
    | some (package, task) =>
      if package = "" ∨ task = "" ∨ ⟨package⟩ ∉ packageNames then none
      else some (.Package ⟨package⟩ ⟨task⟩)
    | none => some (.Global rawKey)

def parsePipelineEntries (orders : BuildOrders) (pipeline : HashMap TaskName TaskDefinition)
    (packageNames : List PackageName) : List (PipelineKey × TaskDefinition) :=
  (orders.pipeline.permute pipeline.entries).filterMap fun e =>
    (parsePipelineKey packageNames e.1).map fun key => (key, e.2)

/-! ## Resolved pipelines -/

structure ResolvedPipeline where
  tasksById : HashMap TaskId TaskDefinition
  taskNamesByPackage : HashMap PackageName (Finset TaskName)
  rootTaskNames : Finset TaskName
  pruneReasonsById : HashMap TaskId String
  inputsFromWorkerById : HashMap TaskId Bool

/-- The three tables the parsed entries are sorted into. -/
structure PipelineTables where
  globalTasks : HashMap TaskName TaskDefinition
  packageTasks : HashMap (PackageName × TaskName) TaskDefinition
  rootTasks : HashMap TaskName TaskDefinition

def PipelineTables.insert (t : PipelineTables) (e : PipelineKey × TaskDefinition) :
    PipelineTables :=
  match e.1 with
  | .Global task => { t with globalTasks := t.globalTasks.insert task e.2 }
  | .Package package task => { t with packageTasks := t.packageTasks.insert (package, task) e.2 }
  | .Root task => { t with rootTasks := t.rootTasks.insert task e.2 }

def PipelineTables.ofEntries (entries : List (PipelineKey × TaskDefinition)) : PipelineTables :=
  entries.foldl PipelineTables.insert ⟨∅, ∅, ∅⟩

/-- One package's tasks: the global ones, unless it is the root package, then its own. -/
def PipelineTables.insertPackage (orders : BuildOrders) (t : PipelineTables)
    (rootPackage : Option PackageName) (tasksById : HashMap TaskId TaskDefinition)
    (packageName : PackageName) : HashMap TaskId TaskDefinition :=
  let tasksById :=
    if rootPackage = some packageName then tasksById
    else tasksById.insertAll
      ((orders.globalTasks.permute t.globalTasks.entries).map fun e => (⟨packageName, e.1⟩, e.2))
  tasksById.insertAll
    ((((orders.packageTasks.permute t.packageTasks.entries)).filter fun e => e.1.1 = packageName).map
      fun e => (⟨packageName, e.1.2⟩, e.2))

/-- The names of the tasks that `insertPackage` gives a package. -/
def PipelineTables.taskNames (t : PipelineTables) (rootPackage : Option PackageName)
    (packageName : PackageName) : Finset TaskName :=
  (if rootPackage = some packageName then ∅ else t.globalTasks.keys.toFinset) ∪
    ((t.packageTasks.keys.filter fun k => k.1 = packageName).map Prod.snd).toFinset

/-- Packages without tasks get no entry. -/
def PipelineTables.insertTaskNames (t : PipelineTables) (rootPackage : Option PackageName)
    (taskNamesByPackage : HashMap PackageName (Finset TaskName)) (packageName : PackageName) :
    HashMap PackageName (Finset TaskName) :=
  let taskNames := t.taskNames rootPackage packageName
  if taskNames = ∅ then taskNamesByPackage else taskNamesByPackage.insert packageName taskNames

def ResolvedPipeline.build (ts : Toposort PackageNode) (orders : BuildOrders) (pg : PackageGraph)
    (pipeline : HashMap TaskName TaskDefinition) : Except EngineError ResolvedPipeline := do
  let packages ← (pg.topologicalOrder ts).mapError .workspace
  let packageNames := packages.map PackageNode.name
  let tables := PipelineTables.ofEntries (parsePipelineEntries orders pipeline packageNames)
  let tasksById := packageNames.foldl (tables.insertPackage orders pg.rootPackage) ∅
  let tasksById := tasksById.insertAll
    ((orders.rootTasks.permute tables.rootTasks.entries).map fun e => (rootTaskId e.1, e.2))
  return {
    tasksById := tasksById
    taskNamesByPackage := packageNames.foldl (tables.insertTaskNames pg.rootPackage) ∅
    rootTaskNames := tables.rootTasks.keys.toFinset
    pruneReasonsById := ∅
    inputsFromWorkerById := ∅ }

/-! ## Upstream packages -/

/-- Root tasks resolve `^` and `^^` from the root package. -/
def upstreamSourcePackage (pg : PackageGraph) (source : TaskId) : PackageName :=
  if source.package.isRoot then pg.rootPackage.getD source.package else source.package

def dependencyNames (pg : PackageGraph) (name : PackageName) :
    Except EngineError (List PackageName) :=
  (pg.dependenciesOf name).mapError .workspace |>.map fun nodes => nodes.map PackageNode.name

/-- Breadth first; every package is enqueued at most once. -/
def transitiveUpstreamPackages (pg : PackageGraph) (name : PackageName) :
    Except EngineError (List PackageName) := do
  let direct ← dependencyNames pg name
  Worklist.search .fifo (dependencyNames pg) pg.graph.nodes.length
    (Worklist.State.visitAll ⟨[], []⟩ direct)

def isDirectUpstream (pg : PackageGraph) (source dependency : TaskId) : Bool :=
  if dependency.package.isRoot then false
  else
    match dependencyNames pg (upstreamSourcePackage pg source) with
    | .ok names => dependency.package ∈ names
    | .error _ => false

def isTransitiveUpstream (pg : PackageGraph) (source dependency : TaskId) : Bool :=
  if dependency.package.isRoot then false
  else
    match transitiveUpstreamPackages pg (upstreamSourcePackage pg source) with
    | .ok names => dependency.package ∈ names
    | .error _ => false

/-! ## The task graph -/

namespace TaskGraph

def taskDefinitionCandidates (orders : BuildOrders) (rp : ResolvedPipeline) (task : TaskName) :
    List TaskId :=
  (orders.tasksById.permute rp.tasksById.keys).filter fun id => id.task = task

/-- The tasks that a dependency reference of `source` denotes. -/
def expandDependency (g : TaskGraph) (orders : BuildOrders) (source : TaskId) (pg : PackageGraph)
    (rp : ResolvedPipeline) : DependsOn → Except EngineError (List TaskId)
  | .SamePackage task =>
    let candidate : TaskId := ⟨source.package, task⟩
    .ok (if (g.taskDefinition candidate).isSome then [candidate] else [])
  | .Specific id => .ok (if (g.taskDefinition id).isSome then [id] else [])
  | .DirectUpstream task =>
    .ok ((taskDefinitionCandidates orders rp task).filter (isDirectUpstream pg source))
  | .TransitiveUpstream task =>
    .ok ((taskDefinitionCandidates orders rp task).filter (isTransitiveUpstream pg source))
  | .Root task =>
    .ok ((taskDefinitionCandidates orders rp task).filter fun id => id.package = rootPackageName)

def taskNodes (orders : BuildOrders) (rp : ResolvedPipeline) : List TaskNode :=
  (orders.tasksById.permute rp.tasksById.entries).map fun e => ⟨e.1, e.2.weight⟩

theorem map_id_taskNodes (orders : BuildOrders) (rp : ResolvedPipeline) :
    ((taskNodes orders rp).map TaskNode.id).Perm rp.tasksById.keys := by
  rw [taskNodes, List.map_map]
  exact (orders.tasksById.perm _).map _

/-- The tasks without their edges: `add_node` numbers the nodes as they come. -/
def withNodes (orders : BuildOrders) (rp : ResolvedPipeline) : TaskGraph where
  graph := ⟨taskNodes orders rp, [], by simp⟩
  indicesById := HashMap.ofList ((taskNodes orders rp).zipIdx.map fun e => (e.1.id, e.2))
  definitionsById := rp.tasksById
  inputsFromWorkerById := rp.inputsFromWorkerById
  indices_iff {id i} := by
    have hfst : ((taskNodes orders rp).zipIdx.map fun e => (e.1.id, e.2)).map Prod.fst =
        (taskNodes orders rp).map TaskNode.id := by
      rw [List.map_map]
      show (taskNodes orders rp).zipIdx.map (TaskNode.id ∘ Prod.fst) = _
      rw [← List.map_map, List.zipIdx_map_fst]
    rw [HashMap.lookup_ofList, List.mem_map]
    · constructor
      · rintro ⟨⟨node, j⟩, hmem, heq⟩
        obtain ⟨rfl, rfl⟩ := Prod.mk.inj heq
        exact ⟨node, List.mem_zipIdx_iff_getElem?.1 hmem, rfl⟩
      · rintro ⟨node, hnode, rfl⟩
        exact ⟨(node, i), List.mem_zipIdx_iff_getElem?.2 hnode, rfl⟩
    · rw [hfst, (map_id_taskNodes orders rp).nodup_iff]
      exact rp.tasksById.keys_nodup

def addDependency (orders : BuildOrders) (pg : PackageGraph) (rp : ResolvedPipeline)
    (source : TaskId) (g : TaskGraph) (dependency : DependsOn) : Except EngineError TaskGraph := do
  let ids ← g.expandDependency orders source pg rp dependency
  return ids.foldl (fun g id => g.addEdgeIfPresent source id) g

def fromResolvedPipeline (ts : Toposort TaskNode) (orders : BuildOrders) (pg : PackageGraph)
    (rp : ResolvedPipeline) : Except EngineError TaskGraph := do
  let withEdges ← (orders.tasksById.permute rp.tasksById.entries).foldlM
    (fun g e => e.2.dependsOn.foldlM (addDependency orders pg rp e.1) g) (withNodes orders rp)
  withEdges.validateAcyclic ts
  return withEdges

def build (tsPackage : Toposort PackageNode) (tsTask : Toposort TaskNode) (orders : BuildOrders)
    (pg : PackageGraph) (pipeline : HashMap TaskName TaskDefinition) :
    Except EngineError TaskGraph := do
  let resolvedPipeline ← ResolvedPipeline.build tsPackage orders pg pipeline
  fromResolvedPipeline tsTask orders pg resolvedPipeline

end TaskGraph

end Luchta.Impl
