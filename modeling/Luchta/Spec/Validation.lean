import Luchta.Spec.Pipeline

/-!
# Dead references

`Resolves` says that a reference denotes a task of the pipeline; `Dead` says what validation looks
up instead, in the tables of package tasks and of root tasks. They part only over the synthetic
root package: `Misread`.
-/

namespace Luchta.Spec

open Luchta.Framework Luchta.Impl

variable (pg : PackageGraph) (pipeline : HashMap TaskName TaskDefinition)

/-- There is a `#task` definition. -/
def RootTask (task : TaskName) : Prop := (definitionAt pg pipeline (.Root task)).isSome

/-- A package of the workspace has the task, as its own or as a global one. -/
def PackageTask (id : TaskId) : Prop :=
  (definitionAt pg pipeline (.Package id.package id.task)).isSome ∨
    (HasPackage pg id.package ∧ pg.rootPackage ≠ some id.package ∧
      (definitionAt pg pipeline (.Global id.task)).isSome)

theorem isTask_iff_tables {id : TaskId} : IsTask pg pipeline id ↔
    (id.isRoot ∧ RootTask pg pipeline id.task) ∨ PackageTask pg pipeline id := isTask_iff pg pipeline

/-- The reference denotes a task. -/
def Resolves (source : TaskId) (dependency : DependsOn) : Prop :=
  ∃ target, IsTask pg pipeline target ∧ Denotes pg source dependency target

/-- No package has the task any more, and no package has lost it. -/
def UnknownEverywhere (pruned : List TaskId) (task : TaskName) : Prop :=
  (∀ package, PackageTask pg pipeline ⟨package, task⟩ → ⟨package, task⟩ ∈ pruned) ∧
    ∀ id ∈ pruned, id.task = task → id.isRoot = true

/-- What validation reports. -/
def Dead (pruned : List TaskId) (source : TaskId) : DependsOn → Prop
  | .SamePackage task =>
    if source.isRoot then ¬ RootTask pg pipeline task ∧ rootTaskId task ∉ pruned
    else UnknownEverywhere pg pipeline pruned task ∧ ⟨source.package, task⟩ ∉ pruned
  | .Specific id =>
    ¬ HasPackage pg id.package ∨ ¬ PackageTask pg pipeline id ∧ id ∉ pruned
  | .DirectUpstream task => UnknownEverywhere pg pipeline pruned task
  | .TransitiveUpstream task => UnknownEverywhere pg pipeline pruned task
  | .Root task => ¬ RootTask pg pipeline task ∧ rootTaskId task ∉ pruned

/-- A root task looked up among the tasks of a package, or a task of a package that has the name of
the synthetic root package looked up among the root tasks. -/
def Misread (pruned : List TaskId) (source : TaskId) : DependsOn → Prop
  | .Specific id => id.isRoot ∧ RootTask pg pipeline id.task ∧
      (HasPackage pg id.package → ¬ PackageTask pg pipeline id ∧ id ∉ pruned)
  | .Root task => PackageTask pg pipeline (rootTaskId task) ∧ ¬ RootTask pg pipeline task ∧
      rootTaskId task ∉ pruned
  | .SamePackage task => source.isRoot ∧ PackageTask pg pipeline (rootTaskId task) ∧
      ¬ RootTask pg pipeline task ∧ rootTaskId task ∉ pruned
  | .DirectUpstream _ => False
  | .TransitiveUpstream _ => False

end Luchta.Spec
