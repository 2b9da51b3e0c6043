import Mathlib.Data.List.Basic
import Mathlib.Data.List.Range
import Mathlib.Logic.Relation
import Mathlib.Order.WellFoundedSet

/-!
# Index graphs and topological sorts

A directed graph as an index-based graph library keeps it: a node's index is its
position in `nodes`, and an edge is a pair of indices `(source, target)`.

* `DiGraph.Acyclic.wellFounded`: without a cycle, following edges terminates.
* `Toposort`: what the graph library's topological sort promises.
* `Toposort.kahn`: repeatedly removing a source node keeps that promise.
-/

namespace Luchta.Framework

structure DiGraph (ν : Type*) where
  nodes : List ν
  edges : List (Nat × Nat)
  edges_lt : ∀ e ∈ edges, e.1 < nodes.length ∧ e.2 < nodes.length

namespace DiGraph

variable {ν : Type*} (g : DiGraph ν)

def empty : DiGraph ν := ⟨[], [], by simp⟩

def addNode (v : ν) : DiGraph ν where
  nodes := g.nodes ++ [v]
  edges := g.edges
  edges_lt e he := by
    have := g.edges_lt e he
    simp only [List.length_append, List.length_singleton]
    omega

/-- Adding an edge needs both its ends: the library panics otherwise. -/
def addEdge (s d : Nat) (hs : s < g.nodes.length) (hd : d < g.nodes.length) :
    DiGraph ν where
  nodes := g.nodes
  edges := g.edges ++ [(s, d)]
  edges_lt e he := by
    rcases List.mem_append.1 he with he | he
    · exact g.edges_lt e he
    · obtain rfl := List.mem_singleton.1 he
      exact ⟨hs, hd⟩

/-- `Edge i j`: there is an edge from `i` to `j`. -/
def Edge (i j : Nat) : Prop := (i, j) ∈ g.edges

instance (i j : Nat) : Decidable (g.Edge i j) := inferInstanceAs (Decidable (_ ∈ _))

/-- No node reaches itself along one or more edges. -/
def Acyclic : Prop := ∀ i, ¬ Relation.TransGen g.Edge i i

/-- `node_references`: every node with its index. -/
def nodeReferences : List (Nat × ν) := g.nodes.zipIdx.map Prod.swap

/-- The targets of the edges out of `i`, one for each edge. -/
def neighborsOut (i : Nat) : List Nat :=
  ((g.edges.filter fun e => e.1 = i).map Prod.snd).reverse

/-- The sources of the edges into `i`, one for each edge. -/
def neighborsIn (i : Nat) : List Nat :=
  ((g.edges.filter fun e => e.2 = i).map Prod.fst).reverse

variable {g}

theorem Edge.lt {i j : Nat} (h : g.Edge i j) :
    i < g.nodes.length ∧ j < g.nodes.length := g.edges_lt _ h

theorem mem_neighborsOut {i j : Nat} : j ∈ g.neighborsOut i ↔ g.Edge i j := by
  simp [neighborsOut, Edge]

theorem mem_neighborsIn {i j : Nat} : j ∈ g.neighborsIn i ↔ g.Edge j i := by
  simp [neighborsIn, Edge]

theorem mem_nodeReferences {i : Nat} {v : ν} :
    (i, v) ∈ g.nodeReferences ↔ g.nodes[i]? = some v := by
  rw [nodeReferences, List.mem_map]
  constructor
  · rintro ⟨⟨v', i'⟩, h, heq⟩
    obtain ⟨rfl, rfl⟩ := Prod.mk.inj heq
    exact List.mem_zipIdx_iff_getElem?.1 h
  · exact fun h => ⟨(v, i), List.mem_zipIdx_iff_getElem?.2 h, rfl⟩

theorem nodeReferences_fst : g.nodeReferences.map Prod.fst = List.range g.nodes.length := by
  rw [nodeReferences, List.map_map, List.range_eq_range', ← List.zipIdx_map_snd]
  rfl

/-- Without a cycle, following edges from a node to its targets terminates. -/
theorem Acyclic.wellFounded (h : g.Acyclic) : WellFounded fun i j => g.Edge j i := by
  have : IsStrictOrder Nat fun i j => Relation.TransGen g.Edge j i :=
    { irrefl := h, trans := fun _ _ _ hab hbc => hbc.trans hab }
  have hfin : (Set.Iio g.nodes.length).WellFoundedOn
      fun i j => Relation.TransGen g.Edge j i := (Set.finite_Iio _).wellFoundedOn
  refine Subrelation.wf (fun {i j} hij => ?_) (Set.wellFoundedOn_iff.1 hfin)
  exact ⟨.single hij, hij.lt.2, hij.lt.1⟩

/-- The same in the other direction, from a node to its sources. -/
theorem Acyclic.wellFounded_flip (h : g.Acyclic) : WellFounded g.Edge := by
  have : IsStrictOrder Nat (Relation.TransGen g.Edge) :=
    { irrefl := h, trans := fun _ _ _ => Relation.TransGen.trans }
  have hfin : (Set.Iio g.nodes.length).WellFoundedOn (Relation.TransGen g.Edge) :=
    (Set.finite_Iio _).wellFoundedOn
  refine Subrelation.wf (fun {i j} hij => ?_) (Set.wellFoundedOn_iff.1 hfin)
  exact ⟨.single hij, hij.lt.1, hij.lt.2⟩

/-- `l` lists every node once, and the source of an edge before its target. -/
structure IsTopological (g : DiGraph ν) (l : List Nat) : Prop where
  perm : l.Perm (List.range g.nodes.length)
  ordered : ∀ {i j}, g.Edge i j → l.idxOf i < l.idxOf j

theorem IsTopological.mem {l : List Nat} (h : g.IsTopological l) {i : Nat} :
    i ∈ l ↔ i < g.nodes.length := by
  rw [h.perm.mem_iff, List.mem_range]

theorem IsTopological.nodup {l : List Nat} (h : g.IsTopological l) : l.Nodup :=
  h.perm.nodup_iff.2 List.nodup_range

/-- A listing of the nodes in which no edge goes backwards or to its own source. -/
theorem IsTopological.of_pairwise {l : List Nat} (hp : l.Perm (List.range g.nodes.length))
    (hord : l.Pairwise fun i j => ¬ g.Edge j i) (hloop : ∀ i ∈ l, ¬ g.Edge i i) :
    g.IsTopological l where
  perm := hp
  ordered {i j} he := by
    have hmem : ∀ {k}, k < g.nodes.length → k ∈ l := fun hk => by
      rwa [hp.mem_iff, List.mem_range]
    have hi := List.idxOf_lt_length_of_mem (hmem he.lt.1)
    have hj := List.idxOf_lt_length_of_mem (hmem he.lt.2)
    by_contra hle
    rcases Nat.lt_or_eq_of_le (Nat.le_of_not_lt hle) with hlt | heq
    · exact List.pairwise_iff_getElem.1 hord _ _ hj hi hlt (by simpa using he)
    · obtain rfl : j = i := (List.idxOf_inj (hmem he.lt.2)).1 heq
      exact hloop _ (hmem he.lt.1) he

/-- A graph that has a topological list has no cycle: each edge goes forward in it. -/
theorem IsTopological.acyclic {l : List Nat} (h : g.IsTopological l) : g.Acyclic := by
  have hidx : ∀ {i j}, Relation.TransGen g.Edge i j → l.idxOf i < l.idxOf j := by
    intro i j hij
    induction hij with
    | single he => exact h.ordered he
    | tail _ he ih => exact ih.trans (h.ordered he)
  exact fun i hi => (hidx hi).false

end DiGraph

/-- The contract of the graph library's `toposort`: a topological list exactly when
there is no cycle, and a node of the graph otherwise. -/
structure Toposort (ν : Type*) where
  run : DiGraph ν → Except Nat (List Nat)
  ok_of_acyclic : ∀ {g}, g.Acyclic → ∃ l, run g = .ok l
  topological : ∀ {g l}, run g = .ok l → g.IsTopological l
  error_lt : ∀ {g i}, run g = .error i → i < g.nodes.length

namespace Toposort

variable {ν : Type*} (ts : Toposort ν) {g : DiGraph ν}

theorem ok_iff : (∃ l, ts.run g = .ok l) ↔ g.Acyclic :=
  ⟨fun ⟨_, h⟩ => (ts.topological h).acyclic, ts.ok_of_acyclic⟩

/-- Emit a remaining node without a remaining source, until none is left. -/
def kahnLoop (g : DiGraph ν) : Nat → List Nat → Except Nat (List Nat)
  | 0, _ => .ok []
  | _ + 1, [] => .ok []
  | k + 1, r :: rest =>
    match (r :: rest).find? fun i => (r :: rest).all fun j => !decide (g.Edge j i) with
    | none => .error r
    | some i => (kahnLoop g k ((r :: rest).erase i)).map (i :: ·)

theorem kahnLoop_ok {k : Nat} {rem l : List Nat} (hk : rem.length ≤ k)
    (h : kahnLoop g k rem = .ok l) :
    l.Perm rem ∧ (l.Pairwise fun i j => ¬ g.Edge j i) ∧ ∀ i ∈ l, ¬ g.Edge i i := by
  induction k generalizing rem l with
  | zero =>
    obtain rfl : rem = [] := List.length_eq_zero_iff.1 (by omega)
    obtain rfl : [] = l := by simpa [kahnLoop] using h
    exact ⟨.refl _, .nil, by simp⟩
  | succ k ih =>
    match rem, h with
    | [], h =>
      obtain rfl : [] = l := by simpa [kahnLoop] using h
      exact ⟨.refl _, .nil, by simp⟩
    | r :: rest, h =>
      rw [kahnLoop] at h
      split at h
      · cases h
      · rename_i i hi
        obtain ⟨l', hl', rfl⟩ : ∃ l', kahnLoop g k ((r :: rest).erase i) = .ok l' ∧ i :: l' = l := by
          cases hrec : kahnLoop g k ((r :: rest).erase i) with
          | error e => simp [hrec, Except.map] at h
          | ok l' => exact ⟨l', rfl, by simpa [hrec, Except.map] using h⟩
        have hmem := List.mem_of_find?_eq_some hi
        have hsrc : ∀ j ∈ r :: rest, ¬ g.Edge j i := by simpa using List.find?_some hi
        have hlen := List.length_erase_of_mem hmem
        obtain ⟨hp, hord, hloop⟩ := ih (by omega) hl'
        refine ⟨(hp.cons i).trans (List.perm_cons_erase hmem).symm,
          List.pairwise_cons.2 ⟨fun j hj => hsrc j ?_, hord⟩, fun j hj => ?_⟩
        · exact List.mem_of_mem_erase (hp.mem_iff.1 hj)
        · rcases List.mem_cons.1 hj with rfl | hj
          · exact hsrc _ hmem
          · exact hloop j hj

theorem kahnLoop_total (hg : g.Acyclic) {k : Nat} {rem : List Nat} :
    ∃ l, kahnLoop g k rem = .ok l := by
  induction k generalizing rem with
  | zero => exact ⟨[], rfl⟩
  | succ k ih =>
    match rem with
    | [] => exact ⟨[], rfl⟩
    | r :: rest =>
      -- a node minimal along the edges has no source among the remaining ones
      obtain ⟨i, hi, hmin⟩ := hg.wellFounded_flip.has_min {x | x ∈ r :: rest} ⟨r, by simp⟩
      rw [kahnLoop]
      split
      · rename_i hnone
        have := List.find?_eq_none.1 hnone i hi
        simp only [List.all_eq_true, Bool.not_eq_eq_eq_not, Bool.not_true,
          decide_eq_false_iff_not] at this
        exact absurd (fun j hj => hmin j hj) this
      · rename_i j _
        obtain ⟨l, hl⟩ := @ih ((r :: rest).erase j)
        exact ⟨j :: l, by rw [hl]; rfl⟩

theorem kahnLoop_error {k : Nat} {rem : List Nat} {i : Nat} (h : kahnLoop g k rem = .error i) :
    i ∈ rem := by
  induction k generalizing rem with
  | zero => cases h
  | succ k ih =>
    match rem, h with
    | r :: rest, h =>
      rw [kahnLoop] at h
      split at h
      · obtain rfl : r = i := by simpa using h
        exact List.mem_cons_self
      · rename_i j _
        cases hrec : kahnLoop g k ((r :: rest).erase j) with
        | ok l => simp [hrec, Except.map] at h
        | error e =>
          obtain rfl : e = i := by simpa [hrec, Except.map] using h
          exact List.mem_of_mem_erase (ih hrec)

/-- Kahn's algorithm meets the contract. -/
def kahn : Toposort ν where
  run g := kahnLoop g g.nodes.length (List.range g.nodes.length)
  ok_of_acyclic hg := kahnLoop_total hg
  topological h := by
    obtain ⟨hp, hord, hloop⟩ := kahnLoop_ok (by simp) h
    exact .of_pairwise hp hord hloop
  error_lt h := List.mem_range.1 (kahnLoop_error h)

end Toposort

end Luchta.Framework
