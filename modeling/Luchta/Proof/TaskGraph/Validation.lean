import Luchta.Proof.TaskGraph.Names
import Luchta.Proof.TaskGraph.Resolved

/-!
# Validation and construction

* `dead_and_resolves_iff`: the references that are dead to validation and yet denote a task.
* `reported_iff`: validation reports the dead references of the tasks that are left.
* `validation_agrees_iff`: validation and construction agree exactly when no reference is misread.
-/

namespace Luchta.Proof.TaskGraph

open Luchta.Framework Luchta.Impl Luchta.Spec
open Relation (TransGen)
open ResolvedPipeline (injectDependencies)
open TaskGraph (validateTasksWithPruned)

variable {pg : PackageGraph} {pipeline : HashMap TaskName TaskDefinition} {orders : BuildOrders}
  {rp : ResolvedPipeline} {pruned : List TaskId} {source : TaskId} {dependency : DependsOn}

/-! ## Dead references that denote a task -/

theorem hasPackage_of_packageTask {id : TaskId} (h : PackageTask pg pipeline id) :
    HasPackage pg id.package := by
  rcases h with h | h
  · unfold definitionAt at h
    split at h
    · rename_i hvalid
      exact hvalid.2.2.2
    · cases h
  · exact h.1

/-- Tasks outside the synthetic root package are package tasks. -/
theorem packageTask_of_isTask {id : TaskId} (h : IsTask pg pipeline id) (hroot : id.isRoot = false) :
    PackageTask pg pipeline id := by
  rw [isTask_iff_tables, hroot] at h
  exact h.resolve_left fun h => Bool.noConfusion h.1

/-- A dead upstream reference denotes nothing. -/
theorem not_upstream_of_unknown {pruned : List TaskId} {target : TaskId}
    (h : UnknownEverywhere pg pipeline pruned target.task) (htask : IsTask pg pipeline target)
    (hroot : target.isRoot = false) : False := by
  have hpruned := h.1 target.package (packageTask_of_isTask htask hroot)
  have := h.2 _ hpruned rfl
  rw [hroot] at this
  contradiction

/-- What is reported although it resolves. -/
theorem dead_and_resolves_iff {pruned : List TaskId} {source : TaskId} {dependency : DependsOn} :
    Dead pg pipeline pruned source dependency ∧ Resolves pg pipeline source dependency ↔
      Misread pg pipeline pruned source dependency := by
  have hrootTask : ∀ task, IsTask pg pipeline (rootTaskId task) ↔
      RootTask pg pipeline task ∨ PackageTask pg pipeline (rootTaskId task) := fun task => by
    rw [isTask_iff_tables]
    exact or_congr_left (and_iff_right rfl)
  -- a root task that validation does not know
  have hroot : ∀ {task : TaskName}, (¬ RootTask pg pipeline task ∧ rootTaskId task ∉ pruned) ∧
      IsTask pg pipeline (rootTaskId task) ↔ PackageTask pg pipeline (rootTaskId task) ∧
        ¬ RootTask pg pipeline task ∧ rootTaskId task ∉ pruned := by
    intro task
    rw [hrootTask]
    constructor
    · rintro ⟨⟨hnot, hpruned⟩, htask⟩
      exact ⟨htask.resolve_left hnot, hnot, hpruned⟩
    · rintro ⟨htask, hnot, hpruned⟩
      exact ⟨⟨hnot, hpruned⟩, .inr htask⟩
  have hdenotes : ∀ {id : TaskId}, (∃ target, IsTask pg pipeline target ∧ target = id) ↔
      IsTask pg pipeline id := fun {id} => by
    simp
  cases dependency with
  | Specific id =>
    show (_ ∨ _) ∧ (∃ target, IsTask pg pipeline target ∧ target = id) ↔ _
    rw [hdenotes, isTask_iff_tables]
    constructor
    · rintro ⟨hdead, htask⟩
      have hnot : ¬ PackageTask pg pipeline id := by
        rcases hdead with hpackage | h
        · exact fun h => hpackage (hasPackage_of_packageTask h)
        · exact h.1
      obtain ⟨hid, hroot⟩ := htask.resolve_right hnot
      exact ⟨hid, hroot, fun hpackage => hdead.resolve_left (not_not.2 hpackage)⟩
    · rintro ⟨hid, hroot, hdead⟩
      by_cases hpackage : HasPackage pg id.package
      · exact ⟨.inr (hdead hpackage), .inl ⟨hid, hroot⟩⟩
      · exact ⟨.inl hpackage, .inl ⟨hid, hroot⟩⟩
  | Root task =>
    show (_ ∧ _) ∧ (∃ target, IsTask pg pipeline target ∧ target = rootTaskId task) ↔ _
    rw [hdenotes]
    exact hroot
  | SamePackage task =>
    show (if source.isRoot then _ else _) ∧
      (∃ target, IsTask pg pipeline target ∧ target = ⟨source.package, task⟩) ↔ source.isRoot ∧ _
    rw [hdenotes]
    by_cases hsource : source.isRoot = true
    · have hcandidate : (⟨source.package, task⟩ : TaskId).isRoot = true := hsource
      have hid : (⟨source.package, task⟩ : TaskId) = rootTaskId task := eq_rootTaskId hcandidate
      rw [if_pos hsource, hid, and_iff_right hsource]
      exact hroot
    · rw [if_neg hsource, iff_false_right fun h => hsource h.1]
      rintro ⟨⟨hunknown, -⟩, htask⟩
      have hcandidate : (⟨source.package, task⟩ : TaskId).isRoot = false :=
        Bool.eq_false_iff.2 hsource
      exact not_upstream_of_unknown hunknown htask hcandidate
  | DirectUpstream task =>
    refine iff_of_false ?_ id
    rintro ⟨hunknown, target, htask, rfl, hid, -⟩
    exact not_upstream_of_unknown hunknown htask hid
  | TransitiveUpstream task =>
    refine iff_of_false ?_ id
    rintro ⟨hunknown, target, htask, rfl, hid, -⟩
    exact not_upstream_of_unknown hunknown htask hid

/-! ## What is reported -/

/-- The tables of a context hold what is left of the pipeline. -/
structure ContextOf (pg : PackageGraph) (pipeline : HashMap TaskName TaskDefinition)
    (pruned : List TaskId) (c : DependencyContext) : Prop where
  packages : ∀ p, p ∈ c.packageNames ↔ HasPackage pg p
  tasks : ∀ id, Contains c.resolvedPipeline.taskNamesByPackage id ↔
    PackageTask pg pipeline id ∧ id ∉ pruned
  roots : ∀ task, task ∈ c.resolvedPipeline.rootTaskNames ↔
    RootTask pg pipeline task ∧ rootTaskId task ∉ pruned
  pruned_eq : c.pruned = pruned

variable {c : DependencyContext}

theorem prunedHasRootTask_iff (hc : ContextOf pg pipeline pruned c) {task : TaskName} :
    c.prunedHasRootTask task = true ↔ rootTaskId task ∈ pruned := by
  rw [DependencyContext.prunedHasRootTask, List.any_eq_true, hc.pruned_eq]
  constructor
  · rintro ⟨id, hmem, h⟩
    obtain ⟨rfl, hroot⟩ := of_decide_eq_true h
    rwa [← eq_rootTaskId hroot]
  · intro hmem
    exact ⟨_, hmem, decide_eq_true ⟨rfl, rfl⟩⟩

theorem prunedHasPackageTask_iff (hc : ContextOf pg pipeline pruned c) {task : TaskName} :
    c.prunedHasPackageTask task = true ↔ ∃ id ∈ pruned, id.task = task ∧ id.isRoot = false := by
  rw [DependencyContext.prunedHasPackageTask, List.any_eq_true, hc.pruned_eq]
  simp

theorem rootReason_isSome (hc : ContextOf pg pipeline pruned c) {task : TaskName} :
    (c.resolvedPipeline.containsRootTask task = false ∧ c.prunedHasRootTask task = false) ↔
      ¬ RootTask pg pipeline task ∧ rootTaskId task ∉ pruned := by
  rw [← Bool.not_eq_true, ← Bool.not_eq_true, prunedHasRootTask_iff hc,
    ResolvedPipeline.containsRootTask, decide_eq_true_iff, hc.roots]
  refine and_congr_left fun hpruned => not_congr (and_iff_left hpruned)

theorem unknownEverywhere_iff (hc : ContextOf pg pipeline pruned c) {task : TaskName} :
    (c.resolvedPipeline.taskExistsInAnyPackage task = false ∧ c.prunedHasPackageTask task = false) ↔
      UnknownEverywhere pg pipeline pruned task := by
  rw [← Bool.not_eq_true, ← Bool.not_eq_true, taskExistsInAnyPackage_iff,
    prunedHasPackageTask_iff hc, UnknownEverywhere]
  simp only [hc.tasks]
  push Not
  simp

/-- The reason is there exactly for dead references. -/
theorem deadDependencyReason_isSome (hc : ContextOf pg pipeline pruned c) (source : TaskId)
    (dependency : DependsOn) : (c.deadDependencyReason source dependency).isSome ↔
      Dead pg pipeline pruned source dependency := by
  have hsome : ∀ {a b : Bool} {r : DeadDependencyReason},
      (if !a && !b then some r else none).isSome ↔ a = false ∧ b = false := by
    intro a b r
    cases a <;> cases b <;> simp
  cases dependency with
  | SamePackage task =>
    show (c.samePackageReason source task).isSome ↔ if source.isRoot then _ else _
    unfold DependencyContext.samePackageReason
    by_cases hsource : source.isRoot = true
    · rw [if_pos hsource, if_pos hsource]
      exact hsome.trans (rootReason_isSome hc)
    · rw [if_neg hsource, if_neg hsource]
      refine hsome.trans ?_
      rw [← unknownEverywhere_iff hc, Bool.or_eq_false_iff, DependencyContext.prunedHasId,
        decide_eq_false_iff_not, hc.pruned_eq]
      tauto
  | Specific id =>
    show (c.specificReason id).isSome ↔ _ ∨ _
    have hpackage : c.packageExists id.package = true ↔ HasPackage pg id.package := by
      rw [DependencyContext.packageExists, decide_eq_true_iff, hc.packages]
    unfold DependencyContext.specificReason
    by_cases hexists : HasPackage pg id.package
    · rw [hpackage.2 hexists, or_iff_right (not_not.2 hexists)]
      refine hsome.trans ?_
      rw [← Bool.not_eq_true, containsPackageTask_iff, hc.tasks, DependencyContext.prunedHasId,
        decide_eq_false_iff_not, hc.pruned_eq]
      exact and_congr_left fun hpruned => not_congr (and_iff_left hpruned)
    · rw [Bool.eq_false_iff.2 (mt hpackage.1 hexists)]
      exact iff_of_true rfl (.inl hexists)
  | DirectUpstream task => exact hsome.trans (unknownEverywhere_iff hc)
  | TransitiveUpstream task => exact hsome.trans (unknownEverywhere_iff hc)
  | Root task => exact hsome.trans (rootReason_isSome hc)

/-- Validation reports the reference of the task as dead. -/
def Reported (result : Except EngineError (Except DependencyValidationError Unit)) (source : TaskId)
    (dependency : DependsOn) : Prop :=
  ∃ diagnostics reason, result = .ok (.error (.InvalidTasks diagnostics)) ∧
    ⟨source, .DeadDependencyReference dependency reason⟩ ∈ diagnostics

theorem mem_taskReasons {globs : GlobLibrary} {workerDefinitions : HashMap String WorkerDefinition}
    {definition : TaskDefinition} {reason : DeadDependencyReason} :
    .DeadDependencyReference dependency reason ∈
        taskReasons globs c workerDefinitions source definition ↔
      dependency ∈ definition.dependsOn ∧ c.deadDependencyReason source dependency = some reason := by
  have hworker : TaskValidationReason.DeadDependencyReference dependency reason ∉
      workerReasons workerDefinitions definition := by
    unfold workerReasons
    split
    · split <;> simp
    · split <;> simp
  have hoverlaps : ∀ role patterns, TaskValidationReason.DeadDependencyReference dependency reason ∉
      validateCacheFileRoleOverlaps globs definition role patterns := by
    intro role patterns hmem
    obtain ⟨e, -, heq⟩ := List.mem_map.1 hmem
    cases heq
  have hfiles : TaskValidationReason.DeadDependencyReference dependency reason ∉
      validateCacheFileDefinition globs definition := by
    unfold validateCacheFileDefinition
    split
    · simp
    · intro hmem
      simp only [List.mem_append, hoverlaps, or_false] at hmem
      rcases hmem with hmem | hmem
      · split at hmem <;> simp at hmem
      · obtain ⟨pattern, -, heq⟩ := List.mem_map.1 hmem
        cases heq
  rw [taskReasons, List.mem_append, List.mem_append, or_iff_right (not_or.2 ⟨hworker, hfiles⟩),
    List.mem_filterMap]
  constructor
  · rintro ⟨d, hmem, h⟩
    obtain ⟨r, hr, heq⟩ := Option.map_eq_some_iff.1 h
    obtain ⟨rfl, rfl⟩ := TaskValidationReason.DeadDependencyReference.inj heq
    exact ⟨hmem, hr⟩
  · rintro ⟨hmem, hr⟩
    exact ⟨dependency, hmem, by rw [hr]; rfl⟩

/-! ## The tasks that are left -/

variable {ts : Toposort PackageNode} {globs : GlobLibrary}
  {workerDefinitions : HashMap String WorkerDefinition}

/-- What validation checks: worker dependencies are injected and pruned tasks are removed. -/
def leftOver (workerDefinitions : HashMap String WorkerDefinition) (rp : ResolvedPipeline)
    (pruned : List TaskId) : ResolvedPipeline :=
  (rp.injectWorkerDependencies workerDefinitions).applyPrunes
    (pruned.map fun taskId => ⟨taskId, .Pruned none⟩)

theorem map_taskId_pruned (pruned : List TaskId) :
    (pruned.map fun taskId => (⟨taskId, .Pruned none⟩ : PrunedTask)).map PrunedTask.taskId =
      pruned := by
  rw [List.map_map]
  exact List.map_id' pruned

theorem contextOf_leftOver (hg : pg.graph.Acyclic)
    (hrp : ResolvedPipeline.build ts orders pg pipeline = .ok rp) :
    ContextOf pg pipeline pruned (.new ts pg (leftOver workerDefinitions rp pruned) pruned) := by
  obtain ⟨htasks, hroots⟩ := resolvedPipeline_names hrp
  refine ⟨fun p => ?_, fun id => ?_, fun task => ?_, rfl⟩
  · rcases PackageGraph.topologicalOrder_cases pg ts with ⟨hcycle, -⟩ | ⟨-, packages, hp, hnames⟩
    · exact absurd hg hcycle
    · rw [DependencyContext.new, hp]
      exact hnames p
  · show Contains (leftOver workerDefinitions rp pruned).taskNamesByPackage id ↔ _
    rw [leftOver, contains_applyPrunes, map_taskId_pruned]
    exact and_congr_left' (htasks id)
  · show task ∈ (leftOver workerDefinitions rp pruned).rootTaskNames ↔ _
    rw [leftOver, mem_rootTaskNames_applyPrunes, map_taskId_pruned]
    exact and_congr_left' (hroots task)

theorem lookup_leftOver (hdefs : ∀ id, rp.tasksById.lookup id = taskDefinition pg pipeline id)
    {id : TaskId} {definition : TaskDefinition} :
    (leftOver workerDefinitions rp pruned).tasksById.lookup id = some definition ↔
      id ∉ pruned ∧ ∃ d, taskDefinition pg pipeline id = some d ∧
        injectDependencies workerDefinitions d = definition := by
  rw [leftOver, tasksById_applyPrunes, map_taskId_pruned, HashMap.lookup_eraseAll,
    Option.ite_none_left_eq_some]
  refine and_congr_right fun _ => ?_
  show AList.lookup id (HashMap.mapWithKey _ _) = _ ↔ _
  rw [HashMap.lookup_mapWithKey, hdefs, Option.map_eq_some_iff]

/-- The diagnostics, before they are sorted. -/
def diagnosticsOf (orders : BuildOrders) (globs : GlobLibrary)
    (workerDefinitions : HashMap String WorkerDefinition) (c : DependencyContext) :
    List TaskValidationDiagnostic :=
  (orders.tasksById.permute c.resolvedPipeline.tasksById.entries).flatMap fun e =>
    (taskReasons globs c workerDefinitions e.1 e.2).map fun reason => ⟨e.1, reason⟩

theorem mem_diagnosticsOf {reason : DeadDependencyReason} :
    ⟨source, .DeadDependencyReference dependency reason⟩ ∈
        diagnosticsOf orders globs workerDefinitions c ↔
      (∃ definition, c.resolvedPipeline.tasksById.lookup source = some definition ∧
        dependency ∈ definition.dependsOn) ∧
      c.deadDependencyReason source dependency = some reason := by
  rw [diagnosticsOf, List.mem_flatMap]
  constructor
  · rintro ⟨⟨id, definition⟩, he, hreason⟩
    obtain ⟨r, hr, heq⟩ := List.mem_map.1 hreason
    obtain ⟨rfl, rfl⟩ := TaskValidationDiagnostic.mk.inj heq
    obtain ⟨hdep, hdead⟩ := mem_taskReasons.1 hr
    exact ⟨⟨definition, (HashMap.mem_permute_entries _).1 he, hdep⟩, hdead⟩
  · rintro ⟨⟨definition, hdef, hdep⟩, hdead⟩
    exact ⟨⟨source, definition⟩, (HashMap.mem_permute_entries _).2 hdef,
      List.mem_map.2 ⟨_, mem_taskReasons.2 ⟨hdep, hdead⟩, rfl⟩⟩

/-- Sorting and removing duplicates loses no diagnostic. -/
theorem reported_iff_mem (hrp : ResolvedPipeline.build ts orders pg pipeline = .ok rp) :
    Reported (validateTasksWithPruned ts orders globs pg pipeline workerDefinitions pruned) source
        dependency ↔
      ∃ reason, ⟨source, .DeadDependencyReference dependency reason⟩ ∈
        diagnosticsOf orders globs workerDefinitions
          (.new ts pg (leftOver workerDefinitions rp pruned) pruned) := by
  let report := fun resolved : ResolvedPipeline =>
    let diagnostics := diagnosticsOf orders globs workerDefinitions (.new ts pg resolved pruned)
    if diagnostics = [] then Except.ok ()
    else .error (DependencyValidationError.InvalidTasks (dedup (sortBy
      (fun d => toLex (d.taskId.toString, d.reason.toString)) diagnostics)))
  have hvalidate : validateTasksWithPruned ts orders globs pg pipeline workerDefinitions pruned =
      .ok (report (leftOver workerDefinitions rp pruned)) := by
    have hleft : (if pruned = [] then rp.injectWorkerDependencies workerDefinitions
        else leftOver workerDefinitions rp pruned) = leftOver workerDefinitions rp pruned := by
      split
      · rename_i hnil
        rw [hnil]
        rfl
      · rfl
    unfold validateTasksWithPruned
    rw [hrp]
    show Except.ok (report (if pruned = [] then rp.injectWorkerDependencies workerDefinitions
      else leftOver workerDefinitions rp pruned)) = _
    rw [hleft]
  rw [Reported, hvalidate]
  constructor
  · rintro ⟨ds, reason, heq, hin⟩
    have heq' := Except.ok.inj heq
    dsimp only [report] at heq'
    split at heq'
    · cases heq'
    · obtain rfl := DependencyValidationError.InvalidTasks.inj (Except.error.inj heq')
      exact ⟨reason, mem_sortBy.1 (mem_dedup.1 hin)⟩
  · rintro ⟨reason, hin⟩
    exact ⟨_, reason, congrArg Except.ok (if_neg (List.ne_nil_of_mem hin)),
      mem_dedup.2 (mem_sortBy.2 hin)⟩

/-- Validation reports the dead references of the tasks that are left, among them those injected by
a worker. -/
theorem reported_iff (ts : Toposort PackageNode) (orders : BuildOrders) (globs : GlobLibrary)
    (workerDefinitions : HashMap String WorkerDefinition) (hg : pg.graph.Acyclic) :
    Reported (validateTasksWithPruned ts orders globs pg pipeline workerDefinitions pruned) source
        dependency ↔
      (∃ definition, taskDefinition pg pipeline source = some definition ∧ source ∉ pruned ∧
        dependency ∈ (injectDependencies workerDefinitions definition).dependsOn) ∧
      Dead pg pipeline pruned source dependency := by
  rcases resolvedPipeline_build ts orders pg pipeline with ⟨hcycle, -⟩ | ⟨-, rp, hrp, hdefs⟩
  · exact absurd hg hcycle
  have hc : ContextOf pg pipeline pruned (.new ts pg (leftOver workerDefinitions rp pruned) pruned) :=
    contextOf_leftOver hg hrp
  rw [reported_iff_mem hrp, ← deadDependencyReason_isSome hc, Option.isSome_iff_exists]
  simp only [mem_diagnosticsOf]
  show (∃ reason, (∃ definition, (leftOver workerDefinitions rp pruned).tasksById.lookup source =
    some definition ∧ _) ∧ _) ↔ _
  simp only [lookup_leftOver hdefs]
  constructor
  · rintro ⟨reason, ⟨definition, ⟨hpruned, d, hd, rfl⟩, hdep⟩, hdead⟩
    exact ⟨⟨d, hd, hpruned, hdep⟩, reason, hdead⟩
  · rintro ⟨⟨d, hd, hpruned, hdep⟩, reason, hdead⟩
    exact ⟨reason, ⟨_, ⟨hpruned, d, hd, rfl⟩, hdep⟩, hdead⟩

/-! ## Agreement -/

/-- The entry is one of the task's, and there is an edge to a task that it denotes. -/
def Contributes (pg : PackageGraph) (g : TaskGraph) (source : TaskId) (dependency : DependsOn) :
    Prop :=
  ∃ definition, g.taskDefinition source = some definition ∧ dependency ∈ definition.dependsOn ∧
    ∃ target, Denotes pg source dependency target ∧ HasEdge g source target

theorem contributes_iff {g : TaskGraph} (h : BuildCorrect pg pipeline g) :
    Contributes pg g source dependency ↔
      (∃ definition, taskDefinition pg pipeline source = some definition ∧
        dependency ∈ definition.dependsOn) ∧ Resolves pg pipeline source dependency := by
  rw [Contributes, h.definition]
  constructor
  · rintro ⟨definition, hdef, hdep, target, hden, hedge⟩
    exact ⟨⟨definition, hdef, hdep⟩, target, ((h.edge_iff _ _).1 hedge).1, hden⟩
  · rintro ⟨⟨definition, hdef, hdep⟩, target, htask, hden⟩
    exact ⟨definition, hdef, hdep, target, hden,
      (h.edge_iff _ _).2 ⟨htask, definition, hdef, dependency, hdep, hden⟩⟩

/-- The reference names one task. -/
def Names (dependency : DependsOn) (target : TaskId) : Prop :=
  dependency = .Specific target ∨ ∃ task, dependency = .Root task ∧ target = rootTaskId task

/-- What validation and construction should say of each other. -/
structure ValidationAgrees (pg : PackageGraph) (pipeline : HashMap TaskName TaskDefinition)
    (pruned : List TaskId) (validated : Except EngineError (Except DependencyValidationError Unit))
    (built : Except EngineError TaskGraph) : Prop where
  /-- What is reported as dead contributes no edge. -/
  sound : ∀ g, built = .ok g → ∀ source dependency, Reported validated source dependency →
    ¬ Contributes pg g source dependency
  /-- A reference to one task that contributes no edge, though neither task was pruned, is reported. -/
  complete : ∀ g, built = .ok g → ∀ source definition dependency target,
    taskDefinition pg pipeline source = some definition → source ∉ pruned →
    dependency ∈ definition.dependsOn → Names dependency target → target ∉ pruned →
    ¬ Contributes pg g source dependency → Reported validated source dependency

/-- A reference to one task that neither is pruned nor resolves is dead. -/
theorem dead_of_not_resolves {target : TaskId} (hnames : Names dependency target)
    (hpruned : target ∉ pruned) (h : ¬ Resolves pg pipeline source dependency) :
    Dead pg pipeline pruned source dependency := by
  rcases hnames with rfl | ⟨task, rfl, rfl⟩
  · refine .inr ⟨fun htask => h ⟨target, ?_, rfl⟩, hpruned⟩
    exact (isTask_iff_tables pg pipeline).2 (.inr htask)
  · refine ⟨fun htask => h ⟨rootTaskId task, ?_, rfl⟩, hpruned⟩
    exact (isTask_iff_tables pg pipeline).2 (.inl ⟨rfl, htask⟩)

/-- Validation and construction agree exactly when no reference of a task that is left is misread;
where construction refuses a cycle, there is no graph to agree on. -/
theorem validation_agrees_iff (tsPackage : Toposort PackageNode) (tsTask : Toposort TaskNode)
    (orders orders' : BuildOrders) (globs : GlobLibrary) (pg : PackageGraph)
    (pipeline : HashMap TaskName TaskDefinition)
    (workerDefinitions : HashMap String WorkerDefinition) (pruned : List TaskId) :
    ValidationAgrees pg pipeline pruned
        (validateTasksWithPruned tsPackage orders globs pg pipeline workerDefinitions pruned)
        (TaskGraph.build tsPackage tsTask orders' pg pipeline) ↔
      (pg.graph.Acyclic → (∀ id, ¬ TransGen (TaskDependsOn pg pipeline) id id) →
        ∀ source definition, taskDefinition pg pipeline source = some definition →
          source ∉ pruned → ∀ dependency ∈ definition.dependsOn,
            ¬ Misread pg pipeline pruned source dependency) := by
  rcases build_cases tsPackage tsTask orders' pg pipeline with ⟨hcycle, e, he⟩ | ⟨hacyclic, g, hg, hcorrect⟩
  · rw [he]
    refine iff_of_true ⟨fun g hg => ?_, fun g hg => ?_⟩ fun hpg htasks => absurd ⟨hpg, htasks⟩ hcycle
    · cases hg
    · cases hg
  rw [hg]
  constructor
  · intro h _ _ source definition hdef hpruned dependency hdep hmisread
    obtain ⟨hdead, hresolves⟩ := dead_and_resolves_iff.2 hmisread
    refine h.sound g rfl source dependency ?_ ((contributes_iff hcorrect).2 ⟨⟨_, hdef, hdep⟩, hresolves⟩)
    exact (reported_iff tsPackage orders globs workerDefinitions hacyclic.1).2
      ⟨⟨definition, hdef, hpruned, mem_injectDependencies hdep⟩, hdead⟩
  · intro h
    refine ⟨fun g' hg' source dependency hreported hcontributes => ?_,
      fun g' hg' source definition dependency target hdef hsource hdep hnames htarget hnot => ?_⟩
    · obtain rfl := Except.ok.inj hg'
      obtain ⟨⟨_, hdef', hpruned, -⟩, hdead⟩ :=
        (reported_iff tsPackage orders globs workerDefinitions hacyclic.1).1 hreported
      obtain ⟨⟨definition, hdef, hdep⟩, hresolves⟩ := (contributes_iff hcorrect).1 hcontributes
      exact h hacyclic.1 hacyclic.2 source definition hdef hpruned dependency hdep
        (dead_and_resolves_iff.1 ⟨hdead, hresolves⟩)
    · obtain rfl := Except.ok.inj hg'
      refine (reported_iff tsPackage orders globs workerDefinitions hacyclic.1).2
        ⟨⟨definition, hdef, hsource, mem_injectDependencies hdep⟩,
          dead_of_not_resolves hnames htarget fun hresolves => hnot ?_⟩
      exact (contributes_iff hcorrect).2 ⟨⟨definition, hdef, hdep⟩, hresolves⟩

/-- No pattern is a glob. -/
def noGlobs : GlobLibrary := ⟨fun pattern => .error pattern, fun _ => .error "no globs"⟩

/-- `build` depends on `//root#release`: the root task `#release`, under its internal name. -/
def internalPipeline : HashMap TaskName TaskDefinition :=
  HashMap.ofList [(⟨"build"⟩, .new [.Specific ⟨⟨"//root"⟩, ⟨"release"⟩⟩] 1), (⟨"#release"⟩, .new [] 1)]

/-- The reference is reported as dead, and its edge is in the graph. -/
theorem internal_name_reported : ¬ ValidationAgrees (twoPackages [] (by decide)) internalPipeline []
    (TaskGraph.validateTasks .kahn idOrders noGlobs (twoPackages [] (by decide)) internalPipeline ∅)
    (TaskGraph.build .kahn .kahn idOrders (twoPackages [] (by decide)) internalPipeline) := by
  intro h
  have hvalidated : TaskGraph.validateTasks .kahn idOrders noGlobs (twoPackages [] (by decide))
      internalPipeline ∅ = .ok (.error (.InvalidTasks [
        ⟨⟨⟨"app"⟩, ⟨"build"⟩⟩, .DeadDependencyReference (.Specific ⟨⟨"//root"⟩, ⟨"release"⟩⟩)
          (.UnknownPackage ⟨"//root"⟩)⟩,
        ⟨⟨⟨"lib"⟩, ⟨"build"⟩⟩, .DeadDependencyReference (.Specific ⟨⟨"//root"⟩, ⟨"release"⟩⟩)
          (.UnknownPackage ⟨"//root"⟩)⟩])) := by
    decide +kernel
  have hok : (TaskGraph.build .kahn .kahn idOrders (twoPackages [] (by decide))
      internalPipeline).toBool = true := by
    decide +kernel
  rcases build_cases .kahn .kahn idOrders (twoPackages [] (by decide)) internalPipeline with
    ⟨-, e, he⟩ | ⟨-, g, hg, hcorrect⟩
  · rw [he] at hok
    contradiction
  · have hdef : taskDefinition (twoPackages [] (by decide)) internalPipeline ⟨⟨"app"⟩, ⟨"build"⟩⟩ =
        some (.new [.Specific ⟨⟨"//root"⟩, ⟨"release"⟩⟩] 1) := by
      decide +kernel
    have htask : IsTask (twoPackages [] (by decide)) internalPipeline ⟨⟨"//root"⟩, ⟨"release"⟩⟩ := by
      show (taskDefinition _ _ _).isSome = true
      decide +kernel
    exact h.sound g hg ⟨⟨"app"⟩, ⟨"build"⟩⟩ (.Specific ⟨⟨"//root"⟩, ⟨"release"⟩⟩)
      ⟨_, _, hvalidated, List.mem_cons_self⟩
      ((contributes_iff hcorrect).2 ⟨⟨_, hdef, List.mem_cons_self⟩, _, htask, rfl⟩)

end Luchta.Proof.TaskGraph
