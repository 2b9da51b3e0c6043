import Luchta.Impl.Pipeline

/-!
# What a pipeline means

The tasks of a workspace and the dependencies between them, read off the package graph and the
pipeline without building anything: `taskDefinition` is the definition each task id has, and
`TaskDependsOn` relates a task to the tasks its references denote.
-/

namespace Luchta.Spec

open Luchta.Framework Luchta.Impl

variable (pg : PackageGraph) (pipeline : HashMap TaskName TaskDefinition)

/-! ## Packages -/

def HasPackage (name : PackageName) : Prop := (pg.indicesByName.lookup name).isSome

instance (name : PackageName) : Decidable (HasPackage pg name) := inferInstanceAs (Decidable (_ = _))

/-- The package `a` directly depends on the package `b`. -/
def PackageDependsOn (a b : PackageName) : Prop :=
  ∃ i j, pg.indicesByName.lookup a = some i ∧ pg.indicesByName.lookup b = some j ∧ pg.graph.Edge i j

/-! ## Definitions -/

/-- How a key is written in the pipeline. -/
def rawKey : PipelineKey → TaskName
  | .Global task => task
  | .Package package task => ⟨package.name ++ "#" ++ task.name⟩
  | .Root task => ⟨"#" ++ task.name⟩

/-- Names are not empty, packages exist, and only the separator before them makes a task special. -/
def ValidKey : PipelineKey → Prop
  | .Global task => '#' ∉ task.name.toList
  | .Package package task =>
    '#' ∉ package.name.toList ∧ package.name ≠ "" ∧ task.name ≠ "" ∧ HasPackage pg package
  | .Root task => task.name ≠ ""

instance : DecidablePred (ValidKey pg)
  | .Global _ => inferInstanceAs (Decidable (¬ _))
  | .Package _ _ => inferInstanceAs (Decidable (_ ∧ _))
  | .Root _ => inferInstanceAs (Decidable (¬ _))

def definitionAt (key : PipelineKey) : Option TaskDefinition :=
  if ValidKey pg key then pipeline.lookup (rawKey key) else none

/-- A root task has its `#task` definition, a package its `pkg#task` definition, and every package
but the root package the global definition of what it does not define itself. -/
def taskDefinition (id : TaskId) : Option TaskDefinition :=
  let root := if id.isRoot then definitionAt pg pipeline (.Root id.task) else none
  let own := definitionAt pg pipeline (.Package id.package id.task)
  let global :=
    if HasPackage pg id.package ∧ pg.rootPackage ≠ some id.package then
      definitionAt pg pipeline (.Global id.task)
    else none
  (root.or own).or global

def IsTask (id : TaskId) : Prop := (taskDefinition pg pipeline id).isSome

/-- The tasks: root tasks, each package's own, and the global ones outside the root package. -/
theorem isTask_iff {id : TaskId} : IsTask pg pipeline id ↔
    (id.isRoot ∧ (definitionAt pg pipeline (.Root id.task)).isSome) ∨
    (definitionAt pg pipeline (.Package id.package id.task)).isSome ∨
    (HasPackage pg id.package ∧ pg.rootPackage ≠ some id.package ∧
      (definitionAt pg pipeline (.Global id.task)).isSome) := by
  unfold IsTask taskDefinition
  dsimp only
  rw [Option.isSome_or, Option.isSome_or, Bool.or_eq_true, Bool.or_eq_true, or_assoc]
  refine or_congr ?_ (or_congr_right ?_)
  · split <;> simp_all
  · split <;> simp_all

/-! ## Dependencies -/

/-- The package whose upstream packages `^` and `^^` mean: for a root task, the root package. -/
def upstreamPackage (source : TaskId) : PackageName :=
  if source.isRoot then pg.rootPackage.getD source.package else source.package

/-- What the reference `dependency` of the task `source` denotes. -/
def Denotes (source : TaskId) (dependency : DependsOn) (target : TaskId) : Prop :=
  match dependency with
  | .SamePackage task => target = ⟨source.package, task⟩
  | .Specific id => target = id
  | .Root task => target = rootTaskId task
  | .DirectUpstream task =>
    target.task = task ∧ target.isRoot = false ∧
      PackageDependsOn pg (upstreamPackage pg source) target.package
  | .TransitiveUpstream task =>
    target.task = task ∧ target.isRoot = false ∧
      Relation.TransGen (PackageDependsOn pg) (upstreamPackage pg source) target.package

/-- Among tasks with these definitions: some reference of the first denotes the second. -/
def DependsAmong (definitions : TaskId → Option TaskDefinition) (source target : TaskId) : Prop :=
  (definitions target).isSome ∧ ∃ definition, definitions source = some definition ∧
    ∃ dependency ∈ definition.dependsOn, Denotes pg source dependency target

/-- Both are tasks, and some reference of the first denotes the second. -/
def TaskDependsOn (source target : TaskId) : Prop :=
  IsTask pg pipeline target ∧ ∃ definition, taskDefinition pg pipeline source = some definition ∧
    ∃ dependency ∈ definition.dependsOn, Denotes pg source dependency target

end Luchta.Spec
