import Luchta.Proof.TaskGraph.Pipeline

/-!
# Dependency edges

* `isTransitiveUpstream_iff`: the search over upstream packages ends and finds their closure.
* `mem_expandDependency`: a reference expands to the tasks it denotes.
* `Grows`: what adding edges keeps of a task graph, and which edges it adds.
-/

namespace Luchta.Proof.TaskGraph

open Luchta.Framework Luchta.Impl Luchta.Spec
open Relation (TransGen ReflTransGen)

/-! ## Upstream packages -/

variable {pg : PackageGraph}

theorem dependencyNames_ok {name : PackageName} (h : HasPackage pg name) :
    ∃ names, dependencyNames pg name = .ok names ∧ ∀ p, p ∈ names ↔ PackageDependsOn pg name p := by
  obtain ⟨i, hi⟩ := Option.isSome_iff_exists.1 h
  unfold dependencyNames PackageGraph.dependenciesOf
  rw [hi]
  refine ⟨_, rfl, fun p => ?_⟩
  show p ∈ List.map _ (List.pmap _ _ _) ↔ _
  rw [List.map_pmap, List.mem_pmap]
  constructor
  · rintro ⟨j, hj, rfl⟩
    have he := DiGraph.mem_neighborsOut.1 hj
    exact ⟨i, j, hi, pg.indices_iff.2 ⟨_, List.getElem?_eq_getElem he.lt.2, rfl⟩, he⟩
  · rintro ⟨i', j, hi', hj, he⟩
    obtain rfl := Option.some.inj (hi.symm.trans hi')
    obtain ⟨node, hnode, rfl⟩ := pg.indices_iff.1 hj
    obtain ⟨hlt, rfl⟩ := List.getElem?_eq_some_iff.1 hnode
    exact ⟨j, DiGraph.mem_neighborsOut.2 he, rfl⟩

theorem dependencyNames_error {name : PackageName} (h : ¬ HasPackage pg name) :
    ∃ e, dependencyNames pg name = .error e := by
  unfold dependencyNames PackageGraph.dependenciesOf
  rw [Option.not_isSome_iff_eq_none.1 h]
  exact ⟨_, rfl⟩

theorem hasPackage_left {a b : PackageName} (h : PackageDependsOn pg a b) :
    HasPackage pg a := by
  obtain ⟨i, j, hi, -, -⟩ := h
  exact Option.isSome_iff_exists.2 ⟨i, hi⟩

theorem hasPackage_right {a b : PackageName} (h : PackageDependsOn pg a b) :
    HasPackage pg b := by
  obtain ⟨i, j, -, hj, -⟩ := h
  exact Option.isSome_iff_exists.2 ⟨j, hj⟩

theorem isDirectUpstream_iff {source dependency : TaskId} :
    isDirectUpstream pg source dependency = true ↔ dependency.isRoot = false ∧
      PackageDependsOn pg (upstreamPackage pg source) dependency.package := by
  unfold isDirectUpstream
  cases hroot : dependency.package.isRoot with
  | true => simp [TaskId.isRoot, hroot]
  | false =>
    rw [if_neg Bool.false_ne_true]
    have hsource : upstreamSourcePackage pg source = upstreamPackage pg source := rfl
    rw [hsource]
    by_cases h : HasPackage pg (upstreamPackage pg source)
    · obtain ⟨names, hok, hmem⟩ := dependencyNames_ok h
      rw [hok]
      simp [TaskId.isRoot, hroot, hmem]
    · obtain ⟨e, he⟩ := dependencyNames_error h
      rw [he]
      simp only [Bool.false_eq_true, false_iff]
      exact fun hd => h (hasPackage_left hd.2)

/-- Every package of the graph, for the fuel of the search. -/
theorem mem_nodeNames {p : PackageName} :
    p ∈ pg.graph.nodes.map PackageNode.name ↔ HasPackage pg p := by
  rw [HasPackage, Option.isSome_iff_exists, List.mem_map]
  constructor
  · rintro ⟨node, hmem, rfl⟩
    obtain ⟨i, hi⟩ := List.mem_iff_getElem?.1 hmem
    exact ⟨i, pg.indices_iff.2 ⟨node, hi, rfl⟩⟩
  · rintro ⟨i, hi⟩
    obtain ⟨node, hnode, rfl⟩ := pg.indices_iff.1 hi
    exact ⟨node, List.mem_of_getElem? hnode, rfl⟩

theorem transitiveUpstreamPackages_ok {name : PackageName} (h : HasPackage pg name) :
    ∃ names, transitiveUpstreamPackages pg name = .ok names ∧
      ∀ p, p ∈ names ↔ TransGen (PackageDependsOn pg) name p := by
  obtain ⟨direct, hdirect, hmem⟩ := dependencyNames_ok h
  obtain ⟨names, hok, hiff⟩ := Worklist.search_ok (D := .fifo)
    (fun hab => mem_nodeNames.2 (hasPackage_right hab)) (fun a ha => dependencyNames_ok (mem_nodeNames.1 ha))
    (fun a ha => mem_nodeNames.2 (hasPackage_right ((hmem a).1 ha)))
  refine ⟨names, ?_, fun p => ?_⟩
  · rw [List.length_map] at hok
    rw [transitiveUpstreamPackages, hdirect]
    exact hok
  · rw [hiff, Relation.TransGen.head'_iff]
    exact exists_congr fun b => and_congr_left fun _ => hmem b

theorem isTransitiveUpstream_iff {source dependency : TaskId} :
    isTransitiveUpstream pg source dependency = true ↔ dependency.isRoot = false ∧
      TransGen (PackageDependsOn pg) (upstreamPackage pg source) dependency.package := by
  unfold isTransitiveUpstream
  cases hroot : dependency.package.isRoot with
  | true => simp [TaskId.isRoot, hroot]
  | false =>
    rw [if_neg Bool.false_ne_true]
    have hsource : upstreamSourcePackage pg source = upstreamPackage pg source := rfl
    rw [hsource]
    by_cases h : HasPackage pg (upstreamPackage pg source)
    · obtain ⟨names, hok, hmem⟩ := transitiveUpstreamPackages_ok h
      rw [hok]
      simp [TaskId.isRoot, hroot, hmem]
    · -- an unknown package has no upstream packages
      obtain ⟨e, he⟩ := dependencyNames_error h
      rw [transitiveUpstreamPackages, he]
      simp only [TaskId.isRoot, hroot]
      refine iff_of_false (by simp [bind, Except.bind]) fun hd => ?_
      obtain ⟨b, hb, -⟩ := Relation.TransGen.head'_iff.1 hd.2
      exact h (hasPackage_left hb)

/-! ## Expanding references -/

variable {g : TaskGraph} {orders : BuildOrders} {rp : ResolvedPipeline}

theorem mem_candidates {task : TaskName} {id : TaskId} :
    id ∈ TaskGraph.taskDefinitionCandidates orders rp task ↔
      (rp.tasksById.lookup id).isSome ∧ id.task = task := by
  rw [TaskGraph.taskDefinitionCandidates, List.mem_filter, RandomState.mem_permute,
    AList.lookup_isSome, decide_eq_true_iff]
  rfl

/-- A reference expands, without an error, to the tasks it denotes. -/
theorem mem_expandDependency (hdefs : g.definitionsById = rp.tasksById) (source : TaskId)
    (dependency : DependsOn) :
    ∃ ids, g.expandDependency orders source pg rp dependency = .ok ids ∧
      ∀ id, id ∈ ids ↔ (rp.tasksById.lookup id).isSome ∧ Denotes pg source dependency id := by
  cases dependency with
  | SamePackage task =>
    refine ⟨_, rfl, fun id => ?_⟩
    rw [TaskGraph.taskDefinition, hdefs, List.mem_ite_nil_right, List.mem_singleton]
    exact ⟨fun ⟨hs, h⟩ => ⟨h ▸ hs, h⟩, fun ⟨hs, h⟩ => ⟨h ▸ hs, h⟩⟩
  | Specific target =>
    refine ⟨_, rfl, fun id => ?_⟩
    rw [TaskGraph.taskDefinition, hdefs, List.mem_ite_nil_right, List.mem_singleton]
    exact ⟨fun ⟨hs, h⟩ => ⟨h ▸ hs, h⟩, fun ⟨hs, h⟩ => ⟨h ▸ hs, h⟩⟩
  | DirectUpstream task =>
    refine ⟨_, rfl, fun id => ?_⟩
    rw [List.mem_filter, mem_candidates, isDirectUpstream_iff, and_assoc]
    rfl
  | TransitiveUpstream task =>
    refine ⟨_, rfl, fun id => ?_⟩
    rw [List.mem_filter, mem_candidates, isTransitiveUpstream_iff, and_assoc]
    rfl
  | Root task =>
    refine ⟨_, rfl, fun id => ?_⟩
    rw [List.mem_filter, mem_candidates, decide_eq_true_iff, and_assoc]
    refine and_congr_right fun _ => ⟨fun ⟨ht, hp⟩ => ?_, ?_⟩
    · show id = ⟨rootPackageName, task⟩
      rw [← ht, ← hp]
    · rintro rfl
      exact ⟨rfl, rfl⟩

/-! ## Adding edges -/

/-- There is an edge between the nodes of two task ids. -/
def HasEdge (g : TaskGraph) (s d : TaskId) : Prop :=
  ∃ i j, g.indicesById.lookup s = some i ∧ g.indicesById.lookup d = some j ∧ g.graph.Edge i j

def HasTask (g : TaskGraph) (id : TaskId) : Prop := (g.indicesById.lookup id).isSome

/-- `g'` is `g` with the edges of `P` between existing tasks, none of them twice. -/
structure Grows (g g' : TaskGraph) (P : TaskId → TaskId → Prop) : Prop where
  nodes : g'.graph.nodes = g.graph.nodes
  indices : g'.indicesById = g.indicesById
  definitions : g'.definitionsById = g.definitionsById
  nodup : g.graph.edges.Nodup → g'.graph.edges.Nodup
  hasEdge : ∀ s d, HasEdge g' s d ↔ HasEdge g s d ∨ P s d ∧ HasTask g s ∧ HasTask g d

variable {g' g'' : TaskGraph} {P Q : TaskId → TaskId → Prop}

theorem Grows.hasTask (h : Grows g g' P) (id : TaskId) : HasTask g' id ↔ HasTask g id := by
  rw [HasTask, HasTask, h.indices]

theorem Grows.refl (g : TaskGraph) : Grows g g fun _ _ => False :=
  ⟨rfl, rfl, rfl, id, by simp⟩

theorem Grows.congr (h : Grows g g' P) (hPQ : ∀ s d, P s d ↔ Q s d) : Grows g g' Q := by
  have heq : P = Q := by
    funext s d
    exact propext (hPQ s d)
  rwa [← heq]

theorem Grows.trans (h : Grows g g' P) (h' : Grows g' g'' Q) :
    Grows g g'' fun s d => P s d ∨ Q s d where
  nodes := h'.nodes.trans h.nodes
  indices := h'.indices.trans h.indices
  definitions := h'.definitions.trans h.definitions
  nodup := h'.nodup ∘ h.nodup
  hasEdge s d := by
    rw [h'.hasEdge, h.hasEdge, h.hasTask, h.hasTask, or_assoc, or_and_right]

theorem addEdgeIfPresent_of_some {source dependency : TaskId} {i j : Nat}
    (hi : g.indicesById.lookup source = some i) (hj : g.indicesById.lookup dependency = some j) :
    g.addEdgeIfPresent source dependency = if g.graph.Edge i j then g else { g with
      graph := g.graph.addEdge i j (g.index_lt hi) (g.index_lt hj)
      indices_iff := g.indices_iff } := by
  unfold TaskGraph.addEdgeIfPresent
  split
  · rename_i i' j' hi' hj'
    obtain rfl := Option.some.inj (hi.symm.trans hi')
    obtain rfl := Option.some.inj (hj.symm.trans hj')
    rfl
  · rename_i hnone
    exact (hnone i j hi hj).elim

theorem addEdgeIfPresent_of_none {source dependency : TaskId}
    (h : g.indicesById.lookup source = none ∨ g.indicesById.lookup dependency = none) :
    g.addEdgeIfPresent source dependency = g := by
  unfold TaskGraph.addEdgeIfPresent
  split
  · rename_i hi hj
    rw [hi, hj] at h
    simp at h
  · rfl

theorem addEdgeIfPresent_grows (g : TaskGraph) (source dependency : TaskId) :
    Grows g (g.addEdgeIfPresent source dependency) fun s d => s = source ∧ d = dependency := by
  unfold TaskGraph.addEdgeIfPresent
  split
  · rename_i i j hi hj
    split
    · rename_i he
      refine ⟨rfl, rfl, rfl, id, fun s d => ⟨.inl, ?_⟩⟩
      rintro (h | ⟨⟨rfl, rfl⟩, -⟩)
      · exact h
      · exact ⟨i, j, hi, hj, he⟩
    · rename_i he
      refine ⟨rfl, rfl, rfl, fun hnd => ?_, fun s d => ?_⟩
      · exact List.nodup_append'.2 ⟨hnd, List.nodup_singleton _, List.disjoint_singleton.2 he⟩
      · constructor
        · rintro ⟨a, b, ha, hb, hab⟩
          rcases List.mem_append.1 hab with hab | hab
          · exact .inl ⟨a, b, ha, hb, hab⟩
          · -- the new edge is between these two tasks only
            obtain ⟨rfl, rfl⟩ := Prod.mk.inj (List.mem_singleton.1 hab)
            obtain ⟨x, hx, hs⟩ := g.indices_iff.1 ha
            obtain ⟨y, hy, hsrc⟩ := g.indices_iff.1 hi
            obtain ⟨u, hu, hd⟩ := g.indices_iff.1 hb
            obtain ⟨v, hv, hdep⟩ := g.indices_iff.1 hj
            obtain rfl := Option.some.inj (hx.symm.trans hy)
            obtain rfl := Option.some.inj (hu.symm.trans hv)
            exact .inr ⟨⟨hs.symm.trans hsrc, hd.symm.trans hdep⟩,
              Option.isSome_iff_exists.2 ⟨_, ha⟩, Option.isSome_iff_exists.2 ⟨_, hb⟩⟩
        · rintro (⟨a, b, ha, hb, hab⟩ | ⟨⟨rfl, rfl⟩, -⟩)
          · exact ⟨a, b, ha, hb, List.mem_append_left _ hab⟩
          · exact ⟨i, j, hi, hj, List.mem_append_right _ (List.mem_singleton_self _)⟩
  · rename_i hnone
    refine ⟨rfl, rfl, rfl, id, fun s d => ⟨.inl, ?_⟩⟩
    rintro (h | ⟨⟨rfl, rfl⟩, hs, hd⟩)
    · exact h
    · obtain ⟨i, hi⟩ := Option.isSome_iff_exists.1 hs
      obtain ⟨j, hj⟩ := Option.isSome_iff_exists.1 hd
      exact (hnone i j hi hj).elim

/-- A loop adds what its rounds add. -/
theorem Grows.foldl {α : Type*} {f : TaskGraph → α → TaskGraph} {R : α → TaskId → TaskId → Prop}
    (hf : ∀ g a, Grows g (f g a) (R a)) (g : TaskGraph) (l : List α) :
    Grows g (l.foldl f g) fun s d => ∃ a ∈ l, R a s d := by
  induction l generalizing g with
  | nil => exact (Grows.refl g).congr (by simp)
  | cons a l ih => exact ((hf g a).trans (ih (f g a))).congr (by simp)

theorem Grows.foldlM {α : Type*} {f : TaskGraph → α → Except EngineError TaskGraph}
    {R : α → TaskId → TaskId → Prop} {defs : HashMap TaskId TaskDefinition}
    (hf : ∀ g a, g.definitionsById = defs → ∃ g', f g a = .ok g' ∧ Grows g g' (R a))
    {g : TaskGraph} (hg : g.definitionsById = defs) (l : List α) :
    ∃ g', l.foldlM f g = .ok g' ∧ Grows g g' fun s d => ∃ a ∈ l, R a s d := by
  induction l generalizing g with
  | nil => exact ⟨g, rfl, (Grows.refl g).congr (by simp)⟩
  | cons a l ih =>
    obtain ⟨g₁, h₁, hgrow₁⟩ := hf g a hg
    obtain ⟨g₂, h₂, hgrow₂⟩ := ih (hgrow₁.definitions.trans hg)
    refine ⟨g₂, ?_, (hgrow₁.trans hgrow₂).congr (by simp)⟩
    rw [List.foldlM_cons, h₁]
    exact h₂

theorem addDependency_grows (hdefs : g.definitionsById = rp.tasksById) (source : TaskId)
    (dependency : DependsOn) :
    ∃ g', TaskGraph.addDependency orders pg rp source g dependency = .ok g' ∧
      Grows g g' fun s d => s = source ∧ (rp.tasksById.lookup d).isSome ∧
        Denotes pg source dependency d := by
  obtain ⟨ids, hids, hmem⟩ := mem_expandDependency hdefs source
    dependency
  refine ⟨_, by rw [TaskGraph.addDependency, hids]; rfl, ?_⟩
  refine (Grows.foldl (addEdgeIfPresent_grows · source) g ids).congr fun s d => ?_
  constructor
  · rintro ⟨id, hid, rfl, rfl⟩
    exact ⟨rfl, (hmem d).1 hid⟩
  · rintro ⟨rfl, hd⟩
    exact ⟨d, (hmem d).2 hd, rfl, rfl⟩

end Luchta.Proof.TaskGraph
