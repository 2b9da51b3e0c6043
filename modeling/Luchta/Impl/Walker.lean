import Luchta.Framework.System
import Luchta.Impl.TaskGraph
import Mathlib.Data.List.Sort
import Mathlib.Data.UInt

/-!
# The walker

The walker emits the tasks of an acyclic task graph as their dependencies succeed, and learns
the outcome of each from a completion signal. The driver is the only owner of the state, so each of
the functions below runs to its end before the next one starts; the consumer moves between any two
of them. Where the source would panic on a missing map entry, the functions here are partial.

Weights are summed in 64 bits without an overflow check, as a release build does.
-/

namespace Luchta.Impl

open Luchta.Framework

inductive NodeState
  | Pending
  | Running
  | Succeeded
  | Failed
  | Skipped
  deriving DecidableEq

def NodeState.terminal : NodeState → Bool
  | .Pending | .Running => false
  | .Succeeded | .Failed | .Skipped => true

structure WalkerState where
  nodes : HashMap Nat TaskNode
  dependenciesRemaining : HashMap Nat Nat
  dependents : HashMap Nat (List Nat)
  downstreamWeights : HashMap Nat UInt64
  states : HashMap Nat NodeState
  terminalCount : Nat
  totalCount : Nat

/-- A node's own weight and the downstream weights of its dependents, which precede it. -/
def weighNode (nodes : HashMap Nat TaskNode) (dependents : HashMap Nat (List Nat))
    (weights : HashMap Nat UInt64) (i : Nat) : Option (HashMap Nat UInt64) := do
  let node ← nodes.lookup i
  let below ← ((dependents.lookup i).getD []).mapM fun d => weights.lookup d
  return weights.insert i (node.weight.toUInt64 + below.sum)

def computeDownstreamWeights (nodes : HashMap Nat TaskNode) (dependents : HashMap Nat (List Nat))
    (order : List Nat) : Option (HashMap Nat UInt64) :=
  order.foldlM (weighNode nodes dependents) ∅

namespace WalkerState

def fromGraph (ts : Toposort TaskNode) (rs : RandomState) (g : TaskGraph) :
    Option WalkerState := do
  let refs := g.graph.nodeReferences
  let nodes := HashMap.ofList refs
  let remaining := HashMap.ofList (refs.map fun r => (r.1, (g.graph.neighborsOut r.1).length))
  let dependents := HashMap.pushAll (HashMap.ofList (refs.map fun r => (r.1, ([] : List Nat))))
    (g.graph.edges.map Prod.swap)
  let states := HashMap.ofList (refs.map fun r => (r.1, NodeState.Pending))
  let indicesById := HashMap.ofList ((rs.permute nodes.entries).map fun e => (e.2.id, e.1))
  let sorted ← (g.topologicalOrder ts).toOption
  let order ← sorted.mapM fun node => indicesById.lookup node.id
  let weights ← computeDownstreamWeights nodes dependents order.reverse
  return {
    nodes := nodes
    dependenciesRemaining := remaining
    dependents := dependents
    downstreamWeights := weights
    states := states
    terminalCount := 0
    totalCount := nodes.entries.length }

/-- The order of dispatch: heavier downstream first, then heavier, then by name. -/
def compareReady (w : WalkerState) (l r : Nat) : Ordering :=
  match w.nodes.lookup l, w.nodes.lookup r with
  | some left, some right =>
    (compare ((w.downstreamWeights.lookup r).getD 0) ((w.downstreamWeights.lookup l).getD 0)).then <|
    (compare right.weight left.weight).then <|
    (compare left.id.package.name right.id.package.name).then <|
    compare left.id.task.name right.id.task.name
  | _, _ => .eq

def takeReadyNodes (rs : RandomState) (w : WalkerState) : List Nat :=
  let ready := (rs.permute w.nodes.keys).filter fun i =>
    w.states.lookup i = some .Pending ∧ (w.dependenciesRemaining.lookup i).getD 0 = 0
  ready.insertionSort fun l r => w.compareReady l r ≠ .gt

def setRunning (w : WalkerState) (i : Nat) : WalkerState :=
  if w.states.lookup i = some .Pending then { w with states := w.states.insert i .Running } else w

def bumpTerminalCount (w : WalkerState) (count : Nat) : WalkerState :=
  { w with terminalCount := w.terminalCount + count }

/-- One dependency less for every dependent that is still pending, once for each edge. -/
def decrementRemaining (states : HashMap Nat NodeState) (remaining : HashMap Nat Nat)
    (dependents : List Nat) : Option (HashMap Nat Nat) :=
  dependents.foldlM (fun remaining d =>
    if states.lookup d ≠ some .Pending then some remaining
    else (remaining.lookup d).map fun count => remaining.insert d (count - 1)) remaining

def markSucceeded (w : WalkerState) (i : Nat) : Option WalkerState := do
  let old := w.states.lookup i
  let w := { w with states := w.states.insert i .Succeeded }
  if old ≠ some .Running then return w
  let w := w.bumpTerminalCount 1
  match w.dependents.lookup i with
  | none => return w
  | some dependents =>
    let remaining ← decrementRemaining w.states w.dependenciesRemaining dependents
    return { w with dependenciesRemaining := remaining }

def pendingCount (states : HashMap Nat NodeState) : Nat :=
  states.entries.countP fun e => e.2 = .Pending

/-- Skipping a pending node leaves one pending node less, so the search below ends. -/
theorem pendingCount_insert_lt {states : HashMap Nat NodeState} {d : Nat} {s : NodeState}
    (h : states.lookup d = some .Pending) (hs : s ≠ .Pending) :
    pendingCount (states.insert d s) < pendingCount states := by
  have hmem : d ∈ states.entries.keys := by
    rw [← AList.keys, ← AList.mem_keys, ← AList.lookup_isSome, h]
    rfl
  obtain ⟨b, l₁, l₂, -, hsplit, herase⟩ := List.exists_of_kerase hmem
  have hb : b = .Pending := by
    have hin : (⟨d, b⟩ : Sigma fun _ : Nat => NodeState) ∈ states.entries := by simp [hsplit]
    exact Option.some.inj ((AList.mem_lookup_iff.2 hin).symm.trans h)
  subst hb
  rw [pendingCount, pendingCount, AList.entries_insert, herase, hsplit]
  simp only [List.countP_cons, List.countP_append, hs, decide_false, decide_true, if_true,
    Bool.false_eq_true, if_false]
  omega

/-- The breadth-first search of `skip_dependents`: the new states and the number skipped. -/
def skipLoop (dependents : HashMap Nat (List Nat)) (queue visited : List Nat)
    (states : HashMap Nat NodeState) (skipped : Nat) : HashMap Nat NodeState × Nat :=
  match queue with
  | [] => (states, skipped)
  | d :: queue =>
    if d ∈ visited then skipLoop dependents queue visited states skipped
    else if h : states.lookup d = some .Pending then
      skipLoop dependents (queue ++ (dependents.lookup d).getD []) (d :: visited)
        (states.insert d .Skipped) (skipped + 1)
    else skipLoop dependents queue (d :: visited) states skipped
termination_by (pendingCount states, queue.length)
decreasing_by
  · exact .right _ (by simp)
  · exact .left _ _ (pendingCount_insert_lt h (by simp))
  · exact .right _ (by simp)

def skipDependents (w : WalkerState) (i : Nat) : WalkerState :=
  let (states, skipped) := skipLoop w.dependents ((w.dependents.lookup i).getD []) [] w.states 0
  let w := { w with states := states }
  if skipped > 0 then w.bumpTerminalCount skipped else w

def markFailed (w : WalkerState) (i : Nat) : WalkerState :=
  let old := w.states.lookup i
  let w := { w with states := w.states.insert i .Failed }
  if old ≠ some .Running then w else (w.bumpTerminalCount 1).skipDependents i

/-- What `run` does with a joined outcome. -/
def settle (w : WalkerState) (i : Nat) (outcome : Bool) : Option WalkerState :=
  match outcome with
  | true => w.markSucceeded i
  | false => some (w.markFailed i)

end WalkerState

/-! ## The driver and its consumer -/

inductive WalkerEvent
  | emitted (i : Nat)
  | answered (i : Nat) (success : Bool)
  deriving DecidableEq

inductive DriverPhase
  /-- Inside `enqueue_ready_nodes`, with these nodes still to emit. -/
  | enqueue (ready : List Nat)
  /-- Sending this node, which is already running, into the bounded channel. -/
  | sending (i : Nat) (ready : List Nat)
  /-- At the head of the loop of `run`. -/
  | waiting
  | stopped
  deriving DecidableEq

structure Driver where
  walker : WalkerState
  phase : DriverPhase
  /-- Messages the channel holds. -/
  channel : List Nat
  /-- Messages the consumer has received and not answered. -/
  held : List Nat
  /-- Nodes whose completion the join set still waits for. -/
  joinSet : List Nat
  /-- Everything the consumer and the driver have exchanged, oldest first. -/
  log : List WalkerEvent

inductive DriverLabel
  | takeNext
  | send
  | recv
  /-- The consumer answers; dropping the sender is the answer `false`. -/
  | answer (i : Nat) (success : Bool)
  | join (i : Nat) (success : Bool)
  | stop

namespace Driver

def init (rs : RandomState) (w : WalkerState) : Driver where
  walker := w
  phase := .enqueue (w.takeReadyNodes rs)
  channel := []
  held := []
  joinSet := []
  log := []

/-- The capacity of the ready channel. -/
def bufferSize (d : Driver) : Nat := max d.walker.nodes.entries.length 1

def step (rs : RandomState) (d : Driver) : DriverLabel → Option Driver
  | .takeNext =>
    match d.phase with
    | .enqueue [] => some { d with phase := .waiting }
    | .enqueue (i :: ready) =>
      if (d.walker.nodes.lookup i).isSome then
        some { d with walker := d.walker.setRunning i, phase := .sending i ready }
      else none
    | _ => none
  | .send =>
    match d.phase with
    | .sending i ready =>
      if d.channel.length < d.bufferSize then
        some { d with
          phase := .enqueue ready
          channel := d.channel ++ [i]
          joinSet := d.joinSet ++ [i]
          log := d.log ++ [.emitted i] }
      else none
    | _ => none
  | .recv =>
    match d.channel with
    | [] => none
    | i :: channel => some { d with channel := channel, held := d.held ++ [i] }
  | .answer i success =>
    if i ∈ d.held then
      some { d with held := d.held.erase i, log := d.log ++ [.answered i success] }
    else none
  | .join i success =>
    if d.phase = .waiting ∧ d.walker.terminalCount < d.walker.totalCount ∧
        i ∈ d.joinSet ∧ .answered i success ∈ d.log then
      (d.walker.settle i success).map fun w => { d with
        walker := w
        phase := .enqueue (w.takeReadyNodes rs)
        joinSet := d.joinSet.erase i }
    else none
  | .stop =>
    if d.phase = .waiting ∧ (d.walker.totalCount ≤ d.walker.terminalCount ∨ d.joinSet = []) then
      some { d with phase := .stopped }
    else none

end Driver

/-- Every run of the driver on a graph, with every behaviour of its consumer. -/
def walkerSystem (ts : Toposort TaskNode) (rs : RandomState) (g : TaskGraph) :
    System Driver DriverLabel where
  init d := ∃ w, WalkerState.fromGraph ts rs g = some w ∧ d = .init rs w
  step := Driver.step rs

end Luchta.Impl
