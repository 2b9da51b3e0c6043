import Luchta.Framework.DiGraph
import Luchta.Framework.HashMap
import Luchta.Framework.Worklist
import Luchta.Impl.Types

/-!
# Package graphs

An edge `A → B` means that package `A` directly depends on package `B`. Building a graph refuses
duplicate names, so the name index finds exactly the nodes.
-/

namespace Luchta.Impl

open Luchta.Framework

inductive WorkspaceError
  | Discovery (message : String)
  | Graph (message : String)
  deriving DecidableEq

def WorkspaceError.message : WorkspaceError → String
  | Discovery message => "workspace discovery failed: " ++ message
  | Graph message => "package graph error: " ++ message

structure PackageNode where
  name : PackageName
  path : String
  deriving DecidableEq

structure PackageGraph where
  graph : DiGraph PackageNode
  indicesByName : HashMap PackageName Nat
  rootPackage : Option PackageName
  indices_iff : ∀ {name i},
    indicesByName.lookup name = some i ↔ ∃ node, graph.nodes[i]? = some node ∧ node.name = name

namespace PackageGraph

variable (pg : PackageGraph)

theorem index_lt {name : PackageName} {i : Nat} (h : pg.indicesByName.lookup name = some i) :
    i < pg.graph.nodes.length := by
  obtain ⟨node, hnode, -⟩ := pg.indices_iff.1 h
  exact (List.getElem?_eq_some_iff.1 hnode).1

/-- `build`, once the nodes have turned out to have distinct names and the edges are collected. -/
def ofNodes (nodes : List PackageNode) (edges : List (Nat × Nat)) (root : Option PackageName)
    (hnames : (nodes.map PackageNode.name).Nodup)
    (hedges : ∀ e ∈ edges, e.1 < nodes.length ∧ e.2 < nodes.length) : PackageGraph where
  graph := ⟨nodes, edges, hedges⟩
  indicesByName := HashMap.ofList (nodes.zipIdx.map fun e => (e.1.name, e.2))
  rootPackage := root
  indices_iff {name i} := by
    have hkeys : ((nodes.zipIdx.map fun e => (e.1.name, e.2)).map Prod.fst).Nodup := by
      have : (nodes.zipIdx.map fun e => (e.1.name, e.2)).map Prod.fst =
          (nodes.zipIdx.map Prod.fst).map PackageNode.name := by
        rw [List.map_map, List.map_map]
        rfl
      rwa [this, List.zipIdx_map_fst]
    rw [HashMap.lookup_ofList hkeys, List.mem_map]
    constructor
    · rintro ⟨⟨node, j⟩, hmem, heq⟩
      obtain ⟨rfl, rfl⟩ := Prod.mk.inj heq
      exact ⟨node, List.mem_zipIdx_iff_getElem?.1 hmem, rfl⟩
    · rintro ⟨node, hnode, rfl⟩
      exact ⟨(node, i), List.mem_zipIdx_iff_getElem?.2 hnode, rfl⟩

/-- Packages that `name` directly depends on. -/
def dependenciesOf (name : PackageName) : Except WorkspaceError (List PackageNode) :=
  match pg.indicesByName.lookup name with
  | none => .error (.Graph ("package '" ++ name.name ++ "' not found in graph"))
  | some i =>
    .ok ((pg.graph.neighborsOut i).pmap (fun j hj => pg.graph.nodes[j])
      fun _ hj => (DiGraph.mem_neighborsOut.1 hj).lt.2)

def node (name : PackageName) : Except WorkspaceError PackageNode :=
  match h : pg.indicesByName.lookup name with
  | none => .error (.Graph ("package '" ++ name.name ++ "' not found in graph"))
  | some i => .ok (pg.graph.nodes.get ⟨i, pg.index_lt h⟩)

/-- Depth first from the seeds that are in the graph; `next` lists the neighbours of an index. -/
def transitiveNeighbors (next : Nat → List Nat) (seeds : List PackageName) :
    Except WorkspaceError (List PackageName) :=
  (Worklist.search .lifo (fun i => .ok (next i)) pg.graph.nodes.length
    (Worklist.State.visitAll ⟨[], []⟩ (seeds.filterMap fun seed => pg.indicesByName.lookup seed))).map
    fun visited => visited.filterMap fun i => pg.graph.nodes[i]?.map PackageNode.name

/-- Seeds plus all packages that transitively depend on them. -/
def transitiveDependentsOf (seeds : List PackageName) : Except WorkspaceError (List PackageName) :=
  pg.transitiveNeighbors pg.graph.neighborsIn seeds

/-- `name` plus all packages it transitively depends on. -/
def transitiveDependenciesOf (name : PackageName) : Except WorkspaceError (List PackageName) :=
  pg.transitiveNeighbors pg.graph.neighborsOut [name]

/-- Dependencies before dependents: the library's order has dependents first. -/
def topologicalOrder (ts : Toposort PackageNode) : Except WorkspaceError (List PackageNode) :=
  match h : ts.run pg.graph with
  | .error i =>
    have hi := ts.error_lt h
    .error (.Graph ("package graph cycle detected at " ++ pg.graph.nodes[i].name.name))
  | .ok order =>
    have hmem : ∀ i ∈ order.reverse, i < pg.graph.nodes.length :=
      fun _ hi => (ts.topological h).mem.1 (List.mem_reverse.1 hi)
    .ok (order.reverse.pmap (fun i hi => pg.graph.nodes[i]) hmem)

end PackageGraph

end Luchta.Impl
