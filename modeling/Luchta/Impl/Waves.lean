import Luchta.Framework.Memo
import Luchta.Framework.Sorted
import Luchta.Framework.Worklist
import Luchta.Impl.TaskGraph

/-!
# Execution waves

Which tasks a run selects, and the waves in which they can be carried out. A set is a list in which only
membership counts, so code that iterates one takes a `RandomState`. The recursion over dependencies has
fuel for every task of the graph.
-/

namespace Luchta.Impl

open Luchta.Framework

/-- Expands the seed task ids to include all of their transitive dependencies. -/
def expandWithDependencies (rs : RandomState) (g : TaskGraph) (seed : List TaskId) : List TaskId :=
  let dependencies : TaskId → Except Empty (List TaskId) := fun id =>
    .ok ((g.dependenciesOf id).map TaskNode.id)
  match Worklist.search .lifo dependencies (g.graph.nodes.length + seed.length)
    (Worklist.State.visitAll ⟨[], []⟩ (rs.permute seed)) with
  | .ok included => included

/-- One more than the deepest of the included dependencies; `waveOf` remembers what is known. -/
def resolveDepth (g : TaskGraph) (includedTasks : List TaskId) :
    Nat → TaskId → Memoised (HashMap TaskId Nat) Unit Nat
  | 0, _ => throw ()
  | fuel + 1, id =>
    memo (fun waveOf => waveOf.lookup id) (fun depth waveOf => waveOf.insert id depth) <|
      (g.dependenciesOf id).foldlM (fun depth dependency =>
        if dependency.id ∉ includedTasks then pure depth
        else do
          let dependencyDepth ← resolveDepth g includedTasks fuel dependency.id
          return max depth (dependencyDepth + 1)) 0

def resolveDepths (rs : RandomState) (g : TaskGraph) (includedTasks : List TaskId) :
    Memoised (HashMap TaskId Nat) Unit Nat :=
  (rs.permute includedTasks).foldlM (fun maxDepth id => do
    let depth ← resolveDepth g includedTasks (g.graph.nodes.length + 1) id
    return max maxDepth depth) 0

def computeLongestPathWaves (rs : RandomState) (g : TaskGraph) (includedTasks : List TaskId) :
    Except Unit (HashMap TaskId Nat × Nat) :=
  if includedTasks.isEmpty then .ok (∅, 0)
  else
    match resolveDepths rs g includedTasks ∅ with
    | (.ok maxDepth, waveOf) => .ok (waveOf, maxDepth + 1)
    | (.error e, _) => .error e

/-- `waves[wave_index].push(task_id)`, which panics out of range. -/
def pushToWave (waves : List (List TaskId)) (e : TaskId × Nat) : Except Unit (List (List TaskId)) :=
  if e.2 < waves.length then .ok (waves.modify e.2 (· ++ [e.1])) else .error ()

def computeExecutionWaves (rs : RandomState) (g : TaskGraph) (tasksToRun : List TaskId) :
    Except Unit (List (List TaskId)) := do
  let (waveOf, totalWaves) ← computeLongestPathWaves rs g tasksToRun
  if totalWaves = 0 then return []
  let waves ← ((rs.permute waveOf.entries).map fun e => (e.1, e.2)).foldlM pushToWave
    (List.replicate totalWaves [])
  return waves.map (sortBy TaskId.toString)

end Luchta.Impl
