import Luchta.Impl.Validation
import Luchta.Proof.TaskGraph.Outcomes
import Luchta.Spec.Validation

/-!
# Task names

The tables that validation looks names up in hold what the pipeline defines, less what was pruned.

* `resolvedPipeline_names`: the tables of a resolved pipeline.
* `contains_applyPrunes`, `mem_rootTaskNames_applyPrunes`: pruning a task removes its name only.
-/

namespace Luchta.Proof.TaskGraph

open Luchta.Framework Luchta.Impl Luchta.Spec

variable {pg : PackageGraph} {pipeline : HashMap TaskName TaskDefinition} {orders : BuildOrders}
  {rp : ResolvedPipeline}

/-! ## Lookups -/

/-- The table has the task of the package. -/
def Contains (m : HashMap PackageName (Finset TaskName)) (id : TaskId) : Prop :=
  ∃ names, m.lookup id.package = some names ∧ id.task ∈ names

theorem containsPackageTask_iff {id : TaskId} :
    rp.containsPackageTask id.package id.task = true ↔ Contains rp.taskNamesByPackage id := by
  rw [ResolvedPipeline.containsPackageTask, Contains, Option.any_eq_true]
  simp

theorem taskExistsInAnyPackage_iff {task : TaskName} :
    rp.taskExistsInAnyPackage task = true ↔ ∃ package, Contains rp.taskNamesByPackage ⟨package, task⟩ := by
  rw [ResolvedPipeline.taskExistsInAnyPackage, List.any_eq_true]
  constructor
  · rintro ⟨⟨package, names⟩, hmem, htask⟩
    exact ⟨package, names, AList.mem_lookup_iff.2 hmem, of_decide_eq_true htask⟩
  · rintro ⟨package, names, hlookup, htask⟩
    exact ⟨⟨package, names⟩, AList.mem_lookup_iff.1 hlookup, decide_eq_true htask⟩

/-! ## Resolved pipelines -/

theorem lookup_foldl_insertTaskNames (t : PipelineTables) (rootPackage : Option PackageName)
    (names : List PackageName) (m : HashMap PackageName (Finset TaskName)) (p : PackageName) :
    (names.foldl (t.insertTaskNames rootPackage) m).lookup p =
      if p ∈ names ∧ t.taskNames rootPackage p ≠ ∅ then some (t.taskNames rootPackage p)
      else m.lookup p := by
  induction names generalizing m with
  | nil => simp
  | cons name names ih =>
    rw [List.foldl_cons, ih]
    have hstep : (t.insertTaskNames rootPackage m name).lookup p =
        if p = name ∧ t.taskNames rootPackage p ≠ ∅ then some (t.taskNames rootPackage p)
        else m.lookup p := by
      unfold PipelineTables.insertTaskNames
      dsimp only
      by_cases hempty : t.taskNames rootPackage name = ∅
      · rw [if_pos hempty, if_neg]
        rintro ⟨rfl, hne⟩
        exact hne hempty
      · rw [if_neg hempty, HashMap.lookup_insert_if]
        by_cases hp : p = name
        · subst hp
          simp [hempty]
        · simp [hp]
    rw [hstep]
    by_cases hne : t.taskNames rootPackage p = ∅
    · simp [hne]
    · by_cases hp : p = name
      · simp [hp, hp ▸ hne]
      · simp [hp]

theorem mem_taskNames {t : PipelineTables} {rootPackage : Option PackageName} {p : PackageName}
    {task : TaskName} : task ∈ t.taskNames rootPackage p ↔
      (t.packageTasks.lookup (p, task)).isSome ∨
        rootPackage ≠ some p ∧ (t.globalTasks.lookup task).isSome := by
  have hpackage : task ∈ ((t.packageTasks.keys.filter fun k => k.1 = p).map Prod.snd).toFinset ↔
      (t.packageTasks.lookup (p, task)).isSome := by
    rw [List.mem_toFinset, List.mem_map, AList.lookup_isSome, AList.mem_keys]
    constructor
    · rintro ⟨⟨package, task⟩, hmem, rfl⟩
      obtain ⟨hkey, rfl⟩ := List.mem_filter.1 hmem |>.imp_right of_decide_eq_true
      exact hkey
    · intro hmem
      exact ⟨(p, task), List.mem_filter.2 ⟨hmem, decide_eq_true rfl⟩, rfl⟩
  rw [PipelineTables.taskNames, Finset.mem_union, hpackage, or_comm]
  refine or_congr_right ?_
  by_cases hroot : rootPackage = some p
  · simp [hroot]
  · rw [if_neg hroot, List.mem_toFinset, ← AList.mem_keys, ← AList.lookup_isSome]
    simp [hroot]

/-- The name tables hold what the pipeline defines. -/
theorem resolvedPipeline_names {ts : Toposort PackageNode}
    (h : ResolvedPipeline.build ts orders pg pipeline = .ok rp) :
    (∀ id, Contains rp.taskNamesByPackage id ↔ PackageTask pg pipeline id) ∧
      ∀ task, task ∈ rp.rootTaskNames ↔ RootTask pg pipeline task := by
  unfold ResolvedPipeline.build at h
  rcases PackageGraph.topologicalOrder_cases pg ts with ⟨-, e, he⟩ | ⟨-, packages, hp, hnames⟩
  · rw [he] at h
    cases h
  · rw [hp] at h
    obtain rfl := Except.ok.inj h
    let tables := PipelineTables.ofEntries
      (parsePipelineEntries orders pipeline (packages.map PackageNode.name))
    have htable : ∀ key, tableLookup tables key = definitionAt pg pipeline key :=
      tableLookup_parsed hnames
    constructor
    · intro id
      have hown : (tables.packageTasks.lookup (id.package, id.task)) =
          definitionAt pg pipeline (.Package id.package id.task) := htable (.Package _ _)
      have hglobal : tables.globalTasks.lookup id.task = definitionAt pg pipeline (.Global id.task) :=
        htable (.Global _)
      have hiff : Contains ((packages.map PackageNode.name).foldl
            (tables.insertTaskNames pg.rootPackage) ∅) id ↔
          HasPackage pg id.package ∧ id.task ∈ tables.taskNames pg.rootPackage id.package := by
        rw [Contains, lookup_foldl_insertTaskNames, ← hnames]
        constructor
        · rintro ⟨names, hlookup, htask⟩
          split at hlookup
          · rename_i hmem
            exact ⟨hmem.1, Option.some.inj hlookup ▸ htask⟩
          · cases hlookup
        · rintro ⟨hmem, htask⟩
          have hne : tables.taskNames pg.rootPackage id.package ≠ ∅ := by
            intro hempty
            rw [hempty] at htask
            exact Finset.notMem_empty _ htask
          exact ⟨_, if_pos ⟨hmem, hne⟩, htask⟩
      refine hiff.trans ?_
      rw [mem_taskNames, hown, hglobal, PackageTask, and_or_left]
      refine or_congr_left (and_iff_right_of_imp fun hsome => ?_)
      unfold definitionAt at hsome
      split at hsome
      · rename_i hvalid
        exact hvalid.2.2.2
      · cases hsome
    · intro task
      have hroot : tables.rootTasks.lookup task = definitionAt pg pipeline (.Root task) :=
        htable (.Root _)
      show task ∈ tables.rootTasks.keys.toFinset ↔ _
      rw [List.mem_toFinset, ← AList.mem_keys, ← AList.lookup_isSome, hroot]
      exact Iff.rfl

/-! ## Prunes -/

theorem contains_removeTaskName (m : HashMap PackageName (Finset TaskName)) (pruned id : TaskId) :
    Contains (ResolvedPipeline.removeTaskName m pruned) id ↔ Contains m id ∧ id ≠ pruned := by
  unfold ResolvedPipeline.removeTaskName
  by_cases hp : id.package = pruned.package
  · have hne : id ≠ pruned ↔ id.task ≠ pruned.task := by
      refine not_congr ⟨fun h => h ▸ rfl, fun h => ?_⟩
      obtain ⟨package, task⟩ := id
      exact congrArg₂ TaskId.mk hp h
    rw [hne]
    cases hlookup : m.lookup pruned.package with
    | none =>
      have hnone : ¬ Contains m id := by
        rintro ⟨names, hnames, -⟩
        rw [hp, hlookup] at hnames
        cases hnames
      exact iff_of_false hnone fun h => hnone h.1
    | some names =>
      dsimp only
      have hiff : Contains m id ∧ id.task ≠ pruned.task ↔ id.task ∈ names.erase pruned.task := by
        rw [Finset.mem_erase, Contains, hp, hlookup]
        constructor
        · rintro ⟨⟨names', hnames, htask⟩, hne⟩
          exact ⟨hne, Option.some.inj hnames ▸ htask⟩
        · rintro ⟨hne, htask⟩
          exact ⟨⟨names, rfl, htask⟩, hne⟩
      rw [hiff, Contains, hp]
      split
      · rename_i hempty
        simp [hempty]
      · simp
  · have hne : id ≠ pruned := fun h => hp (h ▸ rfl)
    rw [and_iff_left hne, Contains, Contains]
    cases hlookup : m.lookup pruned.package with
    | none => rfl
    | some names =>
      dsimp only
      split
      · rw [AList.lookup_erase_ne hp]
      · rw [AList.lookup_insert_ne hp]

theorem contains_applyPrunes (rp : ResolvedPipeline) (pruned : List PrunedTask) (id : TaskId) :
    Contains (rp.applyPrunes pruned).taskNamesByPackage id ↔
      Contains rp.taskNamesByPackage id ∧ id ∉ pruned.map PrunedTask.taskId := by
  rw [ResolvedPipeline.applyPrunes]
  induction pruned generalizing rp with
  | nil => simp
  | cons entry pruned ih =>
    rw [List.foldl_cons, ih, List.map_cons, List.mem_cons, not_or, ← and_assoc]
    exact and_congr_left fun _ => contains_removeTaskName _ _ _

theorem eq_rootTaskId {id : TaskId} (h : id.isRoot = true) : id = rootTaskId id.task := by
  obtain ⟨⟨package⟩, task⟩ := id
  have hname : package = ROOT_PACKAGE_NAME := of_decide_eq_true h
  rw [hname]
  rfl

theorem mem_rootTaskNames_applyPrunes (rp : ResolvedPipeline) (pruned : List PrunedTask)
    (task : TaskName) : task ∈ (rp.applyPrunes pruned).rootTaskNames ↔
      task ∈ rp.rootTaskNames ∧ rootTaskId task ∉ pruned.map PrunedTask.taskId := by
  rw [ResolvedPipeline.applyPrunes]
  induction pruned generalizing rp with
  | nil => simp
  | cons entry pruned ih =>
    rw [List.foldl_cons, ih, List.map_cons, List.mem_cons, not_or, ← and_assoc]
    refine and_congr_left fun _ => ?_
    show task ∈ (if entry.taskId.isRoot then rp.rootTaskNames.erase entry.taskId.task
      else rp.rootTaskNames) ↔ _
    by_cases hroot : entry.taskId.isRoot = true
    · rw [if_pos hroot, Finset.mem_erase, and_comm]
      refine and_congr_right fun _ => not_congr ⟨fun h => ?_, fun h => ?_⟩
      · rw [eq_rootTaskId hroot, h]
      · rw [← h]
        rfl
    · rw [if_neg hroot]
      refine (and_iff_left fun h => hroot ?_).symm
      rw [← h]
      rfl

end Luchta.Proof.TaskGraph
