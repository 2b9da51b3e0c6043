import Luchta.Impl.PackageGraph

/-!
# Task graphs

The task graph as its consumers see it: an edge `X → Y` means that `X` depends on `Y`, and the
index map finds exactly the nodes, so that a task id names at most one of them.
-/

namespace Luchta.Impl

open Luchta.Framework

structure TaskNode where
  id : TaskId
  weight : UInt32
  deriving DecidableEq

/-- Why resolving the tasks cannot complete. -/
inductive ResolveError
  /-- `worker resolution failed for task '{task}': {message}`. -/
  | Worker (task : TaskId) (message : String)
  /-- `task '{task}' rejected by worker: {message}`. -/
  | Rejected (task : TaskId) (message : String)
  deriving DecidableEq

inductive EngineError
  | workspace (error : WorkspaceError)
  /-- `task graph cycle detected at {task}`. -/
  | taskGraphCycle (task : TaskId)
  | resolve (error : ResolveError)
  deriving DecidableEq

structure TaskGraph where
  graph : DiGraph TaskNode
  indicesById : HashMap TaskId Nat
  definitionsById : HashMap TaskId TaskDefinition
  inputsFromWorkerById : HashMap TaskId Bool
  indices_iff : ∀ {id i},
    indicesById.lookup id = some i ↔ ∃ node, graph.nodes[i]? = some node ∧ node.id = id

namespace TaskGraph

/-- The graph of tasks with distinct ids, with the given edges between them. -/
def ofNodes (nodes : List TaskNode) (edges : List (Nat × Nat))
    (definitions : HashMap TaskId TaskDefinition) (hids : (nodes.map TaskNode.id).Nodup)
    (hedges : ∀ e ∈ edges, e.1 < nodes.length ∧ e.2 < nodes.length) : TaskGraph where
  graph := ⟨nodes, edges, hedges⟩
  indicesById := HashMap.ofList (nodes.zipIdx.map fun e => (e.1.id, e.2))
  definitionsById := definitions
  inputsFromWorkerById := ∅
  indices_iff {id i} := by
    have hkeys : ((nodes.zipIdx.map fun e => (e.1.id, e.2)).map Prod.fst).Nodup := by
      have : (nodes.zipIdx.map fun e => (e.1.id, e.2)).map Prod.fst =
          (nodes.zipIdx.map Prod.fst).map TaskNode.id := by
        rw [List.map_map, List.map_map]
        rfl
      rwa [this, List.zipIdx_map_fst]
    rw [HashMap.lookup_ofList hkeys, List.mem_map]
    constructor
    · rintro ⟨⟨node, j⟩, hmem, heq⟩
      obtain ⟨rfl, rfl⟩ := Prod.mk.inj heq
      exact ⟨node, List.mem_zipIdx_iff_getElem?.1 hmem, rfl⟩
    · rintro ⟨node, hnode, rfl⟩
      exact ⟨(node, i), List.mem_zipIdx_iff_getElem?.2 hnode, rfl⟩

variable (g : TaskGraph)

/-- Nodes are determined by their task ids. -/
theorem index_unique {i j : Nat} {a b : TaskNode} (ha : g.graph.nodes[i]? = some a)
    (hb : g.graph.nodes[j]? = some b) (hid : a.id = b.id) : i = j := by
  have hi := g.indices_iff.2 ⟨a, ha, hid⟩
  have hj := g.indices_iff.2 ⟨b, hb, rfl⟩
  exact Option.some.inj (hi.symm.trans hj)

theorem ids_nodup : (g.graph.nodes.map TaskNode.id).Nodup := by
  refine List.nodup_iff_getElem?_ne_getElem?.2 fun i j hij hj heq => ?_
  rw [List.length_map] at hj
  obtain ⟨b, hb⟩ : ∃ b, g.graph.nodes[j]? = some b := ⟨_, List.getElem?_eq_getElem hj⟩
  obtain ⟨a, ha, hid⟩ : ∃ a, g.graph.nodes[i]? = some a ∧ a.id = b.id := by
    simpa [hb, Option.map_eq_some_iff] using heq
  exact absurd (g.index_unique ha hb hid) hij.ne

def taskDefinition (id : TaskId) : Option TaskDefinition := g.definitionsById.lookup id

theorem index_lt {id : TaskId} {i : Nat} (h : g.indicesById.lookup id = some i) :
    i < g.graph.nodes.length := by
  obtain ⟨node, hnode, -⟩ := g.indices_iff.1 h
  exact (List.getElem?_eq_some_iff.1 hnode).1

/-- Tasks that `id` directly depends on. -/
def dependenciesOf (id : TaskId) : List TaskNode :=
  match g.indicesById.lookup id with
  | none => []
  | some i => (g.graph.neighborsOut i).pmap (fun j hj => g.graph.nodes[j])
      fun _ hj => (DiGraph.mem_neighborsOut.1 hj).lt.2

/-- An edge is added once, and only between tasks that exist. -/
def addEdgeIfPresent (source dependency : TaskId) : TaskGraph :=
  match hs : g.indicesById.lookup source, hd : g.indicesById.lookup dependency with
  | some s, some d =>
    if g.graph.Edge s d then g
    else { g with
      graph := g.graph.addEdge s d (g.index_lt hs) (g.index_lt hd)
      indices_iff := g.indices_iff }
  | _, _ => g

/-- Dependencies before dependents: the library's order has dependents first. -/
def topologicalOrder (ts : Toposort TaskNode) : Except EngineError (List TaskNode) :=
  match h : ts.run g.graph with
  | .error i =>
    have hi := ts.error_lt h
    .error (.taskGraphCycle g.graph.nodes[i].id)
  | .ok order =>
    have hmem : ∀ i ∈ order, i < g.graph.nodes.length := fun _ => (ts.topological h).mem.1
    .ok (order.pmap (fun i hi => g.graph.nodes[i]) hmem).reverse

def validateAcyclic (ts : Toposort TaskNode) : Except EngineError Unit :=
  (g.topologicalOrder ts).map fun _ => ()

theorem topologicalOrder_ok {ts : Toposort TaskNode} {order : List Nat}
    (h : ts.run g.graph = .ok order) :
    g.topologicalOrder ts = .ok (order.pmap (fun i hi => g.graph.nodes[i])
      fun _ => (ts.topological h).mem.1).reverse := by
  unfold topologicalOrder
  split
  · rename_i h'
    cases h.symm.trans h'
  · rename_i h'
    obtain rfl := Except.ok.inj (h.symm.trans h')
    rfl

end TaskGraph

end Luchta.Impl
