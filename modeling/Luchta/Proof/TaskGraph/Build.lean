import Luchta.Proof.TaskGraph.Edges

/-!
# Building task graphs

* `fromResolvedPipeline_cases`: the graph of a resolved pipeline has exactly the edges its
  references denote, and is refused exactly when they form a cycle.
* `build_correct`: so has a graph built from the packages and the pipeline.
* `build_refuses_mutual`: a cycle of packages is refused even where no task depends on another.
-/

namespace Luchta.Proof.TaskGraph

open Luchta.Framework Luchta.Impl Luchta.Spec
open Relation (TransGen)

variable {g : TaskGraph} {pg : PackageGraph} {rp : ResolvedPipeline} {orders : BuildOrders}
  {pipeline : HashMap TaskName TaskDefinition}

/-! ## Cycles -/

theorem HasEdge.of_edge {i j : Nat} (h : g.graph.Edge i j) :
    HasEdge g (g.graph.nodes.get ⟨i, h.lt.1⟩).id (g.graph.nodes.get ⟨j, h.lt.2⟩).id :=
  ⟨i, j, g.indices_iff.2 ⟨_, List.getElem?_eq_getElem h.lt.1, rfl⟩,
    g.indices_iff.2 ⟨_, List.getElem?_eq_getElem h.lt.2, rfl⟩, h⟩

/-- Cycles of task ids are cycles of nodes. -/
theorem acyclic_iff : g.graph.Acyclic ↔ ∀ id, ¬ TransGen (HasEdge g) id id := by
  constructor
  · intro hg id hcycle
    have hpath : ∀ {s d}, TransGen (HasEdge g) s d →
        ∃ i j, g.indicesById.lookup s = some i ∧ g.indicesById.lookup d = some j ∧
          TransGen g.graph.Edge i j := by
      intro s d hsd
      induction hsd with
      | single h =>
        obtain ⟨i, j, hi, hj, he⟩ := h
        exact ⟨i, j, hi, hj, .single he⟩
      | tail _ h ih =>
        obtain ⟨i, j, hi, hj, hij⟩ := ih
        obtain ⟨j', k, hj', hk, he⟩ := h
        obtain rfl := Option.some.inj (hj.symm.trans hj')
        exact ⟨i, k, hi, hk, hij.tail he⟩
    obtain ⟨i, j, hi, hj, hij⟩ := hpath hcycle
    obtain rfl := Option.some.inj (hi.symm.trans hj)
    exact hg i hij
  · intro h i hcycle
    have hpath : ∀ {j k}, TransGen g.graph.Edge j k → ∃ (hj : j < g.graph.nodes.length)
        (hk : k < g.graph.nodes.length), TransGen (HasEdge g) g.graph.nodes[j].id
          g.graph.nodes[k].id := by
      intro j k hjk
      induction hjk with
      | single he => exact ⟨he.lt.1, he.lt.2, .single (.of_edge he)⟩
      | tail _ he ih =>
        obtain ⟨hj, _, hpath⟩ := ih
        exact ⟨hj, he.lt.2, hpath.tail (.of_edge he)⟩
    obtain ⟨_, _, hids⟩ := hpath hcycle
    exact h _ hids

theorem validateAcyclic_cases (ts : Toposort TaskNode) (g : TaskGraph) :
    (¬ g.graph.Acyclic ∧ ∃ e, g.validateAcyclic ts = .error e) ∨
      g.graph.Acyclic ∧ g.validateAcyclic ts = .ok () := by
  cases hrun : ts.run g.graph with
  | error i =>
    refine .inl ⟨fun hg => ?_, ?_⟩
    · obtain ⟨order, horder⟩ := ts.ok_of_acyclic hg
      rw [hrun] at horder
      contradiction
    · unfold TaskGraph.validateAcyclic TaskGraph.topologicalOrder
      split
      · exact ⟨_, rfl⟩
      · rename_i h'
        cases hrun.symm.trans h'
  | ok order =>
    refine .inr ⟨ts.ok_iff.1 ⟨order, hrun⟩, ?_⟩
    rw [TaskGraph.validateAcyclic, g.topologicalOrder_ok hrun]
    rfl

/-! ## The graph of a resolved pipeline -/

theorem hasTask_withNodes {id : TaskId} :
    HasTask (TaskGraph.withNodes orders rp) id ↔ (rp.tasksById.lookup id).isSome := by
  have hperm := (TaskGraph.map_id_taskNodes orders rp).mem_iff (a := id)
  rw [AList.lookup_isSome, AList.mem_keys, ← hperm, HasTask, Option.isSome_iff_exists, List.mem_map]
  constructor
  · rintro ⟨i, hi⟩
    obtain ⟨node, hnode, rfl⟩ := (TaskGraph.withNodes orders rp).indices_iff.1 hi
    exact ⟨node, List.mem_of_getElem? hnode, rfl⟩
  · rintro ⟨node, hmem, rfl⟩
    obtain ⟨i, hi⟩ := List.mem_iff_getElem?.1 hmem
    exact ⟨i, (TaskGraph.withNodes orders rp).indices_iff.2 ⟨node, hi, rfl⟩⟩

theorem not_hasEdge_withNodes {s d : TaskId} : ¬ HasEdge (TaskGraph.withNodes orders rp) s d := by
  rintro ⟨i, j, -, -, he⟩
  exact List.not_mem_nil he

/-- What a graph of tasks with the given definitions contains. -/
structure GraphOf (pg : PackageGraph) (definitions : TaskId → Option TaskDefinition)
    (g : TaskGraph) : Prop where
  task_iff : ∀ id, (∃ node ∈ g.graph.nodes, node.id = id) ↔ (definitions id).isSome
  ids_nodup : (g.graph.nodes.map TaskNode.id).Nodup
  definition : ∀ id, g.taskDefinition id = definitions id
  edge_iff : ∀ s d, HasEdge g s d ↔ DependsAmong pg definitions s d
  edges_nodup : g.graph.edges.Nodup

/-- What a graph built for a pipeline contains. -/
structure BuildCorrect (pg : PackageGraph) (pipeline : HashMap TaskName TaskDefinition)
    (g : TaskGraph) : Prop where
  task_iff : ∀ id, (∃ node ∈ g.graph.nodes, node.id = id) ↔ IsTask pg pipeline id
  ids_nodup : (g.graph.nodes.map TaskNode.id).Nodup
  definition : ∀ id, g.taskDefinition id = taskDefinition pg pipeline id
  edge_iff : ∀ s d, HasEdge g s d ↔ TaskDependsOn pg pipeline s d
  edges_nodup : g.graph.edges.Nodup

theorem GraphOf.buildCorrect (h : GraphOf pg (taskDefinition pg pipeline) g) :
    BuildCorrect pg pipeline g :=
  ⟨h.task_iff, h.ids_nodup, h.definition, h.edge_iff, h.edges_nodup⟩

theorem hasTask_iff {id : TaskId} : HasTask g id ↔ ∃ node ∈ g.graph.nodes, node.id = id := by
  rw [HasTask, Option.isSome_iff_exists]
  constructor
  · rintro ⟨i, hi⟩
    obtain ⟨node, hnode, rfl⟩ := g.indices_iff.1 hi
    exact ⟨node, List.mem_of_getElem? hnode, rfl⟩
  · rintro ⟨node, hmem, rfl⟩
    obtain ⟨i, hi⟩ := List.mem_iff_getElem?.1 hmem
    exact ⟨i, g.indices_iff.2 ⟨node, hi, rfl⟩⟩

variable {definitions : TaskId → Option TaskDefinition}

/-- All edges are added, without an error. -/
theorem exists_withEdges (orders : BuildOrders) (pg : PackageGraph)
    (hdefs : ∀ id, rp.tasksById.lookup id = definitions id) :
    ∃ g, (orders.tasksById.permute rp.tasksById.entries).foldlM
        (fun g e => e.2.dependsOn.foldlM (TaskGraph.addDependency orders pg rp e.1) g)
        (TaskGraph.withNodes orders rp) = .ok g ∧ GraphOf pg definitions g := by
  obtain ⟨g, hg, hgrow⟩ := Grows.foldlM
    (f := fun g (e : Σ _ : TaskId, TaskDefinition) =>
      e.2.dependsOn.foldlM (TaskGraph.addDependency orders pg rp e.1) g)
    (fun g e hg => Grows.foldlM (fun g dependency hg => addDependency_grows hg e.1 dependency) hg
      e.2.dependsOn) (g := TaskGraph.withNodes orders rp) rfl
    (orders.tasksById.permute rp.tasksById.entries)
  refine ⟨g, hg, fun id => ?_, g.ids_nodup, fun id => ?_, fun s d => ?_, hgrow.nodup .nil⟩
  · rw [← hasTask_iff, hgrow.hasTask, hasTask_withNodes, hdefs]
  · rw [TaskGraph.taskDefinition, hgrow.definitions, ← hdefs]
    rfl
  · rw [hgrow.hasEdge, or_iff_right not_hasEdge_withNodes, hasTask_withNodes, hasTask_withNodes]
    constructor
    · rintro ⟨⟨⟨id, definition⟩, hmem, dependency, hdep, rfl, -, hden⟩, -, hd⟩
      rw [HashMap.mem_permute_entries, hdefs] at hmem
      rw [hdefs] at hd
      exact ⟨hd, definition, hmem, dependency, hdep, hden⟩
    · rintro ⟨hd, definition, hdef, dependency, hdep, hden⟩
      rw [← hdefs] at hd hdef
      exact ⟨⟨⟨s, definition⟩, (HashMap.mem_permute_entries _).2 hdef, dependency, hdep, rfl, hd,
        hden⟩, Option.isSome_iff_exists.2 ⟨_, hdef⟩, hd⟩

theorem fromResolvedPipeline_cases (ts : Toposort TaskNode) (orders : BuildOrders)
    (pg : PackageGraph) (hdefs : ∀ id, rp.tasksById.lookup id = definitions id) :
    ((∃ id, TransGen (DependsAmong pg definitions) id id) ∧
      ∃ e, TaskGraph.fromResolvedPipeline ts orders pg rp = .error e) ∨
    (∀ id, ¬ TransGen (DependsAmong pg definitions) id id) ∧
      ∃ g, TaskGraph.fromResolvedPipeline ts orders pg rp = .ok g ∧ GraphOf pg definitions g := by
  obtain ⟨g, hg, hcorrect⟩ := exists_withEdges orders pg hdefs
  have hrel : HasEdge g = DependsAmong pg definitions := by
    funext s d
    exact propext (hcorrect.edge_iff s d)
  unfold TaskGraph.fromResolvedPipeline
  rw [hg]
  rcases validateAcyclic_cases ts g with ⟨hcycle, e, he⟩ | ⟨hacyclic, hok⟩
  · rw [acyclic_iff, hrel] at hcycle
    push Not at hcycle
    refine .inl ⟨hcycle, e, ?_⟩
    show (g.validateAcyclic ts >>= fun _ => pure g) = _
    rw [he]
    rfl
  · rw [acyclic_iff, hrel] at hacyclic
    refine .inr ⟨hacyclic, g, ?_, hcorrect⟩
    show (g.validateAcyclic ts >>= fun _ => pure g) = _
    rw [hok]
    rfl

/-! ## The graph of a workspace -/

/-- Building succeeds exactly when neither the packages nor the tasks depend on themselves, and then
it builds the graph of the pipeline. -/
theorem build_cases (tsPackage : Toposort PackageNode) (tsTask : Toposort TaskNode)
    (orders : BuildOrders) (pg : PackageGraph) (pipeline : HashMap TaskName TaskDefinition) :
    (¬ (pg.graph.Acyclic ∧ ∀ id, ¬ TransGen (TaskDependsOn pg pipeline) id id) ∧
      ∃ e, TaskGraph.build tsPackage tsTask orders pg pipeline = .error e) ∨
    (pg.graph.Acyclic ∧ ∀ id, ¬ TransGen (TaskDependsOn pg pipeline) id id) ∧
      ∃ g, TaskGraph.build tsPackage tsTask orders pg pipeline = .ok g ∧
        BuildCorrect pg pipeline g := by
  unfold TaskGraph.build
  rcases resolvedPipeline_build tsPackage orders pg pipeline with ⟨hcycle, e, he⟩ | ⟨hg, rp, hrp, hdefs⟩
  · rw [he]
    exact .inl ⟨fun h => hcycle h.1, e, rfl⟩
  · rw [hrp]
    show (_ ∧ ∃ e, TaskGraph.fromResolvedPipeline tsTask orders pg rp = .error e) ∨
      _ ∧ ∃ g, TaskGraph.fromResolvedPipeline tsTask orders pg rp = .ok g ∧ _
    rcases fromResolvedPipeline_cases tsTask orders pg hdefs with
      ⟨⟨id, hcycle⟩, e, he⟩ | ⟨hacyclic, g, hok, hcorrect⟩
    · exact .inl ⟨fun h => h.2 id hcycle, e, he⟩
    · exact .inr ⟨⟨hg, hacyclic⟩, g, hok, hcorrect.buildCorrect⟩

/-- A built graph has the tasks and the dependencies of the pipeline; and building succeeds exactly
when neither the packages nor the tasks depend on themselves. -/
theorem build_correct (tsPackage : Toposort PackageNode) (tsTask : Toposort TaskNode)
    (orders : BuildOrders) (pg : PackageGraph) (pipeline : HashMap TaskName TaskDefinition) :
    (∀ g, TaskGraph.build tsPackage tsTask orders pg pipeline = .ok g →
      BuildCorrect pg pipeline g) ∧
    ((∃ g, TaskGraph.build tsPackage tsTask orders pg pipeline = .ok g) ↔
      pg.graph.Acyclic ∧ ∀ id, ¬ TransGen (TaskDependsOn pg pipeline) id id) := by
  rcases build_cases tsPackage tsTask orders pg pipeline with ⟨hcycle, e, he⟩ | ⟨hacyclic, g, hg, hcorrect⟩
  · rw [he]
    refine ⟨fun g hg => ?_, fun ⟨g, hg⟩ => ?_, fun h => absurd h hcycle⟩
    · cases hg
    · cases hg
  · rw [hg]
    refine ⟨fun g' hg' => ?_, fun _ => hacyclic, fun _ => ⟨g, rfl⟩⟩
    obtain rfl := Except.ok.inj hg'
    exact hcorrect

/-- Two packages, with the edges given. -/
def twoPackages (edges : List (Nat × Nat)) (h : ∀ e ∈ edges, e.1 < 2 ∧ e.2 < 2) :
    PackageGraph where
  graph := ⟨[⟨⟨"app"⟩, "packages/app"⟩, ⟨⟨"lib"⟩, "packages/lib"⟩], edges, h⟩
  indicesByName := HashMap.ofList [(⟨"app"⟩, 0), (⟨"lib"⟩, 1)]
  rootPackage := none
  indices_iff {name i} := by
    rw [HashMap.lookup_ofList (by decide)]
    match i with
    | 0 => simp [eq_comm]
    | 1 => simp [eq_comm]
    | i + 2 => simp

def idOrders : BuildOrders := ⟨.id, .id, .id, .id, .id⟩

/-- `build` needs the `build` of the direct upstream packages and the root task `audit`. -/
def buildPipeline : HashMap TaskName TaskDefinition :=
  HashMap.ofList [(⟨"build"⟩, .new [.DirectUpstream ⟨"build"⟩, .Root ⟨"audit"⟩] 1),
    (⟨"#audit"⟩, .new [] 1), (⟨"lib#build"⟩, .new [] 2)]

theorem build_correct_chain :
    ∃ g, TaskGraph.build .kahn .kahn idOrders (twoPackages [(0, 1)] (by decide)) buildPipeline =
      .ok g ∧ BuildCorrect (twoPackages [(0, 1)] (by decide)) buildPipeline g := by
  have hok : (TaskGraph.build .kahn .kahn idOrders (twoPackages [(0, 1)] (by decide))
      buildPipeline).toBool = true := by
    decide +kernel
  cases h : TaskGraph.build .kahn .kahn idOrders (twoPackages [(0, 1)] (by decide))
      buildPipeline with
  | error e =>
    rw [h] at hok
    contradiction
  | ok g =>
    exact ⟨g, rfl, (build_correct .kahn .kahn idOrders (twoPackages [(0, 1)] (by decide))
      buildPipeline).1 g h⟩

/-- With an empty pipeline no task depends on another, but a cycle of packages is refused. -/
theorem build_refuses_mutual :
    (¬ ∃ g, TaskGraph.build .kahn .kahn idOrders (twoPackages [(0, 1), (1, 0)] (by decide)) ∅ =
      .ok g) ∧
    ∀ id, ¬ TransGen (TaskDependsOn (twoPackages [(0, 1), (1, 0)] (by decide)) ∅) id id := by
  constructor
  · rintro ⟨g, hg⟩
    have herr : (TaskGraph.build .kahn .kahn idOrders
        (twoPackages [(0, 1), (1, 0)] (by decide)) ∅).toBool = false := by
      decide +kernel
    rw [hg] at herr
    contradiction
  · intro id hcycle
    obtain ⟨d, ⟨-, definition, hdef, -⟩, -⟩ := Relation.TransGen.head'_iff.1 hcycle
    simp [taskDefinition, definitionAt] at hdef

end Luchta.Proof.TaskGraph
