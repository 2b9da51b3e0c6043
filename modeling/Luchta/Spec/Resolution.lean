import Luchta.Impl.Resolution
import Luchta.Spec.Pipeline

/-!
# What resolving tasks means

What the replies of the workers make of the tasks of a workspace, said task by task: `replyTo` is
the reply to a task, and `resolvedDefinition` the definition it is left with. `buildSequential`
handles the replies one after another in a given order.
-/

namespace Luchta.Spec

open Luchta.Framework Luchta.Impl

/-! ## Single replies -/

/-- The error with which a reply ends the resolution. -/
def stopOf (mode : ResolveMode) (id : TaskId) : ResolveOutcome → Option ResolveError
  | .error message => some (.Worker id message)
  | .ok (.Reject message) => if mode = .Check then some (.Rejected id message) else none
  | .ok _ => none

/-- The entry of a task that its reply removes. -/
def prunedOf (id : TaskId) : ResolveOutcome → Option PrunedTask
  | .ok (.Prune reason) => some ⟨id, .Pruned reason⟩
  | .ok (.Reject message) => some ⟨id, .Rejected message⟩
  | _ => none

def modificationOf : ResolveOutcome → Option TaskModification
  | .ok (.Modify modification) => some modification
  | _ => none

/-! ## Tasks -/

variable (args : BuildArgs)

/-- What the worker of a task replies; tasks without a worker are not asked about. -/
def replyTo (id : TaskId) : Option ResolveOutcome :=
  (taskDefinition args.packageGraph args.pipeline id).bind fun definition =>
    definition.worker.map fun worker =>
      args.resolver worker (resolveTask args.packages args.mode id definition)

def stop (id : TaskId) : Option ResolveError := (replyTo args id).bind (stopOf args.mode id)

def prunedTask (id : TaskId) : Option PrunedTask := (replyTo args id).bind (prunedOf id)

/-- The definition after the worker's modification. -/
def modifiedDefinition (id : TaskId) : Option TaskDefinition :=
  (taskDefinition args.packageGraph args.pipeline id).map fun definition =>
    ((replyTo args id).bind modificationOf).elim definition (·.applyTo definition)

/-- Pruned tasks have none; the others have what their workers depend on injected. -/
def resolvedDefinition (id : TaskId) : Option TaskDefinition :=
  if (prunedTask args id).isSome then none
  else (modifiedDefinition args id).map
    (ResolvedPipeline.injectDependencies args.workerDefinitions)

/-! ## Replies in a fixed order -/

/-- Every task that is asked about is handled, once. -/
structure HandlesAll (order : List TaskId) : Prop where
  nodup : order.Nodup
  mem_iff : ∀ id, id ∈ order ↔ (replyTo args id).isSome

def outcomesIn (reply : TaskId → Option ResolveOutcome) (order : List TaskId) :
    List (TaskId × ResolveOutcome) :=
  order.filterMap fun id => (reply id).map fun outcome => (id, outcome)

/-- The replies are handled one after another. -/
def buildSequential (tsPackage : Toposort PackageNode) (tsTask : Toposort TaskNode)
    (orders : BuildOrders) (order : List TaskId) :
    Except EngineError (TaskGraph × List PrunedTask) := do
  let rp ← ResolvedPipeline.build tsPackage orders args.packageGraph args.pipeline
  TaskGraph.finishResolved tsTask orders args rp (outcomesIn (replyTo args) order)

/-- The same error, or the same graph and the same pruned list. -/
def SameResult : Except EngineError (TaskGraph × List PrunedTask) →
    Except EngineError (TaskGraph × List PrunedTask) → Prop
  | .error e, .error e' => e = e'
  | .ok (g, pruned), .ok (g', pruned') =>
    g.graph = g'.graph ∧ g.indicesById = g'.indicesById ∧ g.definitionsById = g'.definitionsById ∧
      (∀ id, g.inputsFromWorkerById.lookup id = g'.inputsFromWorkerById.lookup id) ∧
      pruned = pruned'
  | _, _ => False

/-! ## Ties -/

/-- Of the tasks whose replies end the resolution, one whose id has the least text. -/
def StopsFirst (id : TaskId) : Prop :=
  (stop args id).isSome ∧ ∀ id', (stop args id').isSome → id.toString ≤ id'.toString

/-- No two tasks whose ids have one text compete: to be the error that ends the resolution, or,
where none does and the tasks that are left depend on each other without a cycle, for their places
in the pruned list. -/
def NoTies : Prop :=
  (∀ id id', StopsFirst args id → StopsFirst args id' → id = id') ∧
    ((∀ id, stop args id = none) →
      (∀ id, ¬ Relation.TransGen (DependsAmong args.packageGraph (resolvedDefinition args)) id id) →
      ∀ id id', (prunedTask args id).isSome → (prunedTask args id').isSome →
        id.toString = id'.toString → id = id')

end Luchta.Spec
