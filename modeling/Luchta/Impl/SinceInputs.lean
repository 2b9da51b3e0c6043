import Luchta.Impl.ResolveInputs
import Luchta.Impl.TaskGraph
import Mathlib.Data.Finset.Insert
import Mathlib.Data.List.MinMax

/-!
# Declared inputs of a `--since` run

Which packages and root tasks declare an input that changed. Requests compiled for one task serve
every task of its package with the same inputs, and failures of package tasks are put off until it is
known whether their package is affected in another way.
-/

namespace Luchta.Impl

open Luchta.Framework

inductive SinceError
  | InputExpansion (message : String)
  | InputMatch (message : String)
  deriving DecidableEq

def SinceError.message : SinceError → String
  | InputExpansion m => "Failed to expand task inputs for --since: " ++ m
  | InputMatch m => "Failed to match changed paths against task inputs: " ++ m

structure DeclaredInputMatches where
  inputMatchedPackages : Finset PackageName
  affectedRootTasks : Finset TaskName
  rootTasksWithInputs : Finset TaskName
  deriving DecidableEq

namespace DeclaredInputMatches

variable (found : DeclaredInputMatches) (absolutePaths : List Path) (task : TaskId)
  (matcher : PathRequestMatcher)

/-- A root task that no path can match is left to run. -/
def recordRoot : DeclaredInputMatches :=
  if !matcher.hasIncludes then found
  else
    let found := { found with rootTasksWithInputs := insert task.task found.rootTasksWithInputs }
    if absolutePaths.any matcher.matchesPath then
      { found with affectedRootTasks := insert task.task found.affectedRootTasks }
    else found

def recordPackage : DeclaredInputMatches :=
  if absolutePaths.any matcher.matchesPath then
    { found with inputMatchedPackages := insert task.package found.inputMatchedPackages }
  else found

def record : DeclaredInputMatches :=
  if task.isRoot then found.recordRoot absolutePaths task matcher
  else found.recordPackage absolutePaths task matcher

end DeclaredInputMatches

/-- What is known after some of the tasks: the matches, the compiled requests and the failures. -/
structure InputScan where
  found : DeclaredInputMatches
  matchers : HashMap (PackageName × List String) PathRequestMatcher
  inputErrors : List (TaskId × SinceError)

def InputScan.start : InputScan := ⟨⟨∅, ∅, ∅⟩, ∅, []⟩

variable (ts : Toposort PackageNode) (globs : GlobLibrary) (graph : PackageGraph)
  (workspaceRoot : Path)

def compileInputMatcher (rs : RandomState) (task : TaskId) (inputs : List String) :
    Except SinceError PathRequestMatcher := do
  let requests ← (expandInputPatterns ts rs inputs task.package graph workspaceRoot).mapError
    fun error => .InputExpansion ("task '" ++ task.toString ++ "': " ++ error.message)
  (PathRequestMatcher.compile globs requests).mapError fun error =>
    .InputMatch ("task '" ++ task.toString ++ "': " ++ error.message)

variable (alreadyAffected : Finset PackageName) (absolutePaths : List Path)

/-- A package task can add its own package only, and with no paths it cannot. -/
def InputScan.skips (s : InputScan) (task : TaskId) : Bool :=
  !task.isRoot && (absolutePaths.isEmpty || task.package ∈ alreadyAffected ||
    task.package ∈ s.found.inputMatchedPackages)

def InputScan.visit (rs : RandomState) (s : InputScan) (task : TaskId)
    (definition : TaskDefinition) : Except SinceError InputScan :=
  if definition.inputs = [] then .ok s
  else if s.skips alreadyAffected absolutePaths task then .ok s
  else
    match s.matchers.lookup (task.package, definition.inputs) with
    | some matcher => .ok { s with found := s.found.record absolutePaths task matcher }
    | none =>
      match compileInputMatcher ts globs graph workspaceRoot rs task definition.inputs with
      | .ok matcher => .ok { s with
          matchers := s.matchers.insert (task.package, definition.inputs) matcher
          found := s.found.record absolutePaths task matcher }
      | .error error =>
        if task.isRoot then .error error
        else .ok { s with inputErrors := s.inputErrors ++ [(task, error)] }

/-- The failure to report: of the tasks whose package nothing else affects, the first by its id. -/
def InputScan.firstError (s : InputScan) : Option (TaskId × SinceError) :=
  (s.inputErrors.filter fun e =>
    e.1.package ∉ alreadyAffected ∧ e.1.package ∉ s.found.inputMatchedPackages).argmin
      fun e => e.1.toString

def InputScan.finish (s : InputScan) : Except SinceError DeclaredInputMatches :=
  match s.firstError alreadyAffected with
  | some (_, error) => .error error
  | none => .ok s.found

/-- The tasks in the order in which they are visited, each with the seed of the sets that its
expansion iterates; the changed paths in the order of their set. -/
def declaredInputMatchesForTasks (changedPaths : List Path) (repoRoot : Path)
    (tasks : List (RandomState × TaskId × TaskDefinition)) : Except SinceError DeclaredInputMatches := do
  let absolutePaths := changedPaths.map repoRoot.join
  let s ← tasks.foldlM (fun s (rs, task, definition) =>
    s.visit ts globs graph workspaceRoot alreadyAffected absolutePaths rs task definition)
    InputScan.start
  s.finish alreadyAffected

/-- The tasks of a graph that have a definition. -/
def declaredInputMatches (changedPaths : List Path) (repoRoot : Path) (rs : RandomState)
    (taskGraph : TaskGraph) : Except SinceError DeclaredInputMatches :=
  declaredInputMatchesForTasks ts globs graph workspaceRoot alreadyAffected changedPaths repoRoot
    (taskGraph.graph.nodes.filterMap fun node =>
      (taskGraph.taskDefinition node.id).map fun definition => (rs, node.id, definition))

end Luchta.Impl
