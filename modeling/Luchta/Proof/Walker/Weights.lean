import Luchta.Framework.Layers
import Luchta.Framework.Sorted
import Luchta.Proof.Walker.Driver

/-!
# Downstream weights in 64 bits

A downstream weight counts a task once for each chain of dependents that leads to it.

* `isDownstreamWeight_iff`: the true weights are the sums over those chains.
* `trueWeights_iff`: the stored ones are true, and order the ready tasks, just if each sum is below `2 ^ 64`.
* `downstreamWeights_wrap`: a chain of 65 packages whose tasks depend on all packages below is enough for
  the stored weight to start over.
-/

namespace Luchta.Proof.Walker

open Luchta.Framework Luchta.Impl
open Relation (TransGen)

variable {g : TaskGraph} {w : WalkerState} {W : Nat → Nat}

/-! ## Chains of dependents -/

/-- The weights of the last tasks, over the chains of `n` dependents above a task. -/
def chainWeight (g : TaskGraph) : Nat → Nat → Nat
  | 0, i => weightOf g i
  | n + 1, i => ((dependentsOf g i).map (chainWeight g n)).sum

/-- The same over chains of all lengths: none has more tasks than the graph. -/
def totalChainWeight (g : TaskGraph) (i : Nat) : Nat :=
  ((List.range g.graph.nodes.length).map fun n => chainWeight g n i).sum

theorem exists_chain_of_chainWeight {n i : Nat} (h : chainWeight g n i ≠ 0) :
    ∃ c, (i :: c).IsChain (fun a b => g.graph.Edge b a) ∧ c.length = n := by
  induction n generalizing i with
  | zero => exact ⟨[], List.isChain_singleton i, rfl⟩
  | succ n ih =>
    obtain ⟨d, hd, hne⟩ : ∃ d ∈ dependentsOf g i, chainWeight g n d ≠ 0 := by
      by_contra hnone
      push Not at hnone
      refine h (List.sum_eq_zero fun k hk => ?_)
      obtain ⟨d, hd, rfl⟩ := List.mem_map.1 hk
      exact hnone d hd
    obtain ⟨c, hchain, hlen⟩ := ih hne
    exact ⟨d :: c, List.isChain_cons_cons.2 ⟨mem_dependentsOf.1 hd, hchain⟩, by rw [List.length_cons, hlen]⟩

/-- A chain passes distinct tasks, so it is shorter than the graph. -/
theorem chainWeight_eq_zero (hg : g.graph.Acyclic) {i : Nat} (hi : i < g.graph.nodes.length) :
    chainWeight g g.graph.nodes.length i = 0 := by
  by_contra hne
  obtain ⟨c, hchain, hlen⟩ := exists_chain_of_chainWeight hne
  have hnodup : (i :: c).Nodup :=
    nodup_of_isChain (fun a ha => hg a (Relation.transGen_swap.1 ha)) hchain
  have hsub : ∀ j ∈ i :: c, j ∈ List.range g.graph.nodes.length := by
    intro j hj
    rw [List.mem_range]
    rcases List.mem_cons.1 hj with rfl | hj
    · exact hi
    · obtain ⟨k, hk⟩ := exists_dep_of_mem_chain hchain hj
      exact hk.lt.1
  have hle := (hnodup.subperm hsub).length_le
  rw [List.length_cons, List.length_range, hlen] at hle
  omega

theorem sum_map_sum (f : Nat → Nat → Nat) (l m : List Nat) :
    (l.map fun a => (m.map fun b => f a b).sum).sum = (m.map fun b => (l.map fun a => f a b).sum).sum := by
  induction l with
  | nil => simp
  | cons a l ih => simp only [List.map_cons, List.sum_cons, ih, List.sum_map_add]

theorem isDownstreamWeight_totalChainWeight (hg : g.graph.Acyclic) :
    IsDownstreamWeight g (totalChainWeight g) := by
  intro i hi
  obtain ⟨m, hm⟩ : ∃ m, g.graph.nodes.length = m + 1 := ⟨_, (Nat.succ_pred_eq_of_pos (by omega)).symm⟩
  have hzero := chainWeight_eq_zero hg hi
  have habove : ((dependentsOf g i).map (totalChainWeight g)).sum =
      ((List.range (m + 1)).map fun n => chainWeight g (n + 1) i).sum := by
    unfold totalChainWeight
    rw [sum_map_sum, hm]
    rfl
  rw [habove, totalChainWeight, hm, List.range_succ_eq_map, List.map_cons, List.sum_cons, List.map_map,
    ← List.range_succ_eq_map, List.range_succ, List.map_append, List.sum_append]
  rw [hm, chainWeight] at hzero
  simp [hzero, chainWeight, Function.comp_def]

/-- The true weights are determined. -/
theorem isDownstreamWeight_iff (hg : g.graph.Acyclic) :
    IsDownstreamWeight g W ↔ ∀ i < g.graph.nodes.length, W i = totalChainWeight g i := by
  have htotal := isDownstreamWeight_totalChainWeight hg
  have hbelow : ∀ {V : Nat → Nat} {i : Nat}, (∀ d, g.graph.Edge d i → V d = totalChainWeight g d) →
      ((dependentsOf g i).map V).sum = ((dependentsOf g i).map (totalChainWeight g)).sum := fun h => by
    rw [List.map_congr_left fun d hd => h d (mem_dependentsOf.1 hd)]
  refine ⟨fun hW i hi => ?_, fun hW i hi => ?_⟩
  · induction i using hg.wellFounded_flip.induction with
    | _ i ih => rw [hW i hi, htotal i hi, hbelow fun d hd => ih d hd hd.lt.1]
  · rw [hW i hi, htotal i hi, hbelow fun d hd => hW d hd.lt.1]

/-! ## The order of dispatch -/

/-- The comparison puts a task with a greater weight first. -/
theorem le_of_compareReady {l r : Nat} (hl : (w.nodes.lookup l).isSome) (hr : (w.nodes.lookup r).isSome) :
    (w.compareReady l r ≠ .gt → ((w.downstreamWeights.lookup r).getD 0).toNat ≤
      ((w.downstreamWeights.lookup l).getD 0).toNat) ∧
    (¬ w.compareReady l r ≠ .gt → ((w.downstreamWeights.lookup l).getD 0).toNat ≤
      ((w.downstreamWeights.lookup r).getD 0).toNat) := by
  obtain ⟨left, hleft⟩ := Option.isSome_iff_exists.1 hl
  obtain ⟨right, hright⟩ := Option.isSome_iff_exists.1 hr
  rw [WalkerState.compareReady, hleft, hright]
  dsimp only
  cases hcmp : compare ((w.downstreamWeights.lookup r).getD 0) ((w.downstreamWeights.lookup l).getD 0) with
  | lt =>
    have hlt := UInt64.lt_iff_toNat_lt.1 (Std.compare_eq_lt.1 hcmp)
    exact ⟨fun _ => hlt.le, fun h => absurd (show Ordering.lt ≠ .gt by decide) h⟩
  | eq =>
    have heq := congrArg UInt64.toNat (Std.compare_eq_iff_eq.1 hcmp)
    exact ⟨fun _ => heq.le, fun _ => heq.ge⟩
  | gt =>
    have hlt := UInt64.lt_iff_toNat_lt.1 (Std.compare_eq_gt.1 hcmp)
    exact ⟨fun h => absurd rfl h, fun _ => hlt.le⟩

theorem takeReadyNodes_pairwise (w : WalkerState) (rs : RandomState) :
    (w.takeReadyNodes rs).Pairwise fun l r => ((w.downstreamWeights.lookup r).getD 0).toNat ≤
      ((w.downstreamWeights.lookup l).getD 0).toNat := by
  have hknown : ∀ {i}, i ∈ (rs.permute w.nodes.keys).filter (fun i =>
      w.states.lookup i = some .Pending ∧ (w.dependenciesRemaining.lookup i).getD 0 = 0) →
        (w.nodes.lookup i).isSome := fun h => by
    rw [AList.lookup_isSome, AList.mem_keys]
    exact (rs.mem_permute).1 (List.mem_filter.1 h).1
  refine pairwise_insertionSort_key (f := fun i =>
    OrderDual.toDual ((w.downstreamWeights.lookup i).getD 0).toNat) ?_ ?_
  · exact fun l hl r hr h => (le_of_compareReady (hknown hl) (hknown hr)).1 h
  · exact fun l hl r hr h => (le_of_compareReady (hknown hl) (hknown hr)).2 h

/-! ## True weights -/

/-- Every stored weight is the true one, and whichever tasks are ready are handed out in the order of
those. -/
structure TrueWeights (g : TaskGraph) (w : WalkerState) (W : Nat → Nat) : Prop where
  stored : ∀ i < g.graph.nodes.length, (w.downstreamWeights.lookup i).map UInt64.toNat = some (W i)
  ordered : ∀ (w' : WalkerState) (rs : RandomState), w'.nodes = w.nodes →
    w'.downstreamWeights = w.downstreamWeights → (w'.takeReadyNodes rs).Pairwise fun l r => W r ≤ W l

/-- The stored weights are true exactly when none of the sums over chains of dependents needs more than
64 bits. -/
theorem trueWeights_iff (ts : Toposort TaskNode) (rs : RandomState) (hg : g.graph.Acyclic)
    (hW : IsDownstreamWeight g W) :
    ∃ w, WalkerState.fromGraph ts rs g = some w ∧
      (TrueWeights g w W ↔ ∀ i < g.graph.nodes.length, totalChainWeight g i < 2 ^ 64) := by
  obtain ⟨w, hw, hinv, -, hweights⟩ := fromGraph_inv ts rs hg
  have htotal := (isDownstreamWeight_iff hg).1 hW
  have hvalue : ∀ i < g.graph.nodes.length,
      (w.downstreamWeights.lookup i).map UInt64.toNat = some (W i % 2 ^ 64) := fun i hi => by
    rw [hweights hW i hi, Option.map_some, UInt64.toNat_ofNat']
  refine ⟨w, hw, fun h i hi => ?_, fun h => ?_⟩
  · have heq := Option.some.inj ((hvalue i hi).symm.trans (h.stored i hi))
    rw [← htotal i hi, ← heq]
    exact Nat.mod_lt _ (by decide)
  · have hstored : ∀ i < g.graph.nodes.length,
        (w.downstreamWeights.lookup i).map UInt64.toNat = some (W i) := fun i hi => by
      rw [hvalue i hi, Nat.mod_eq_of_lt (htotal i hi ▸ h i hi)]
    refine ⟨hstored, fun w' rs' hnodes hsame => ?_⟩
    have hready : ∀ i ∈ w'.takeReadyNodes rs', ((w'.downstreamWeights.lookup i).getD 0).toNat = W i := by
      intro i hi
      rw [WalkerState.takeReadyNodes, List.mem_insertionSort, List.mem_filter, rs'.mem_permute,
        ← AList.mem_keys, ← AList.lookup_isSome, hnodes, hinv.nodes] at hi
      have hlt : i < g.graph.nodes.length := by
        obtain ⟨node, hnode⟩ := Option.isSome_iff_exists.1 hi.1
        exact (List.getElem?_eq_some_iff.1 hnode).1
      obtain ⟨u, hu, hnat⟩ := Option.map_eq_some_iff.1 (hstored i hlt)
      rw [hsame, hu]
      exact hnat
    refine (takeReadyNodes_pairwise w' rs').imp_of_mem fun {l r} hl hr h => ?_
    rwa [hready l hl, hready r hr] at h

/-- An application's build weighs itself, its library's build both. -/
theorem trueWeights_iff_chain : ∃ w, WalkerState.fromGraph .kahn .id chain = some w ∧
    TrueWeights chain w fun i => if i = 0 then 1 else 3 := by
  have hg : chain.graph.Acyclic := Toposort.kahn.ok_iff.1 ⟨[0, 1], by decide⟩
  have hW : IsDownstreamWeight chain fun i => if i = 0 then 1 else 3 := by
    unfold IsDownstreamWeight
    decide
  obtain ⟨w, hw, hiff⟩ := trueWeights_iff .kahn .id hg hW
  exact ⟨w, hw, hiff.2 (by decide)⟩

/-! ## Too long a chain of packages -/

/-- An edge to each number from all that are less. -/
def edgesBelow (n : Nat) : List (Nat × Nat) :=
  (List.range n).flatMap fun i => (List.range i).map fun j => (j, i)

theorem mem_edgesBelow {n : Nat} {e : Nat × Nat} : e ∈ edgesBelow n ↔ e.1 < e.2 ∧ e.2 < n := by
  rw [edgesBelow, List.mem_flatMap]
  constructor
  · rintro ⟨i, hi, he⟩
    obtain ⟨j, hj, rfl⟩ := List.mem_map.1 he
    exact ⟨List.mem_range.1 hj, List.mem_range.1 hi⟩
  · rintro ⟨hlt, hn⟩
    exact ⟨e.2, List.mem_range.2 hn, List.mem_map.2 ⟨e.1, List.mem_range.2 hlt, rfl⟩⟩

theorem filter_edgesBelow (n i : Nat) :
    ((edgesBelow n).filter fun e => e.2 = i).map Prod.fst = if i < n then List.range i else [] := by
  induction n with
  | zero => rfl
  | succ n ih =>
    have hlast : (((List.range n).map fun j => (j, n)).filter fun e => e.2 = i).map Prod.fst =
        if n = i then List.range n else [] := by
      rw [List.filter_map, List.map_map]
      by_cases hi : n = i
      · simp [hi, Function.comp_def]
      · simp [hi, Function.comp_def]
    rw [edgesBelow, List.range_succ, List.flatMap_append, List.filter_append, List.map_append,
      List.flatMap_singleton, hlast, ← edgesBelow, ih]
    split
    · rw [if_neg (by omega), if_pos (by omega), List.append_nil]
    · split
      · rename_i heq
        rw [if_pos (by omega), heq, List.nil_append]
      · rw [if_neg (by omega), List.nil_append]

def buildNode (i : Nat) : TaskNode := ⟨⟨⟨String.singleton (Char.ofNat (48 + i))⟩, ⟨"build"⟩⟩, 1⟩

/-- Each of 65 packages has a build that depends on those of all packages below it. -/
def packageChain : TaskGraph :=
  .ofNodes ((List.range 65).map buildNode) (edgesBelow 65) ∅ (by decide +kernel) fun e he => by
    obtain ⟨hlt, hn⟩ := mem_edgesBelow.1 he
    rw [List.length_map, List.length_range]
    exact ⟨hlt.trans hn, hn⟩

theorem nodes_packageChain : packageChain.graph.nodes = (List.range 65).map buildNode := rfl

theorem length_packageChain : packageChain.graph.nodes.length = 65 := by
  rw [nodes_packageChain, List.length_map, List.length_range]

theorem isDownstreamWeight_packageChain : IsDownstreamWeight packageChain fun i => 2 ^ i := by
  intro i hi
  rw [length_packageChain] at hi
  have hweight : weightOf packageChain i = 1 := by
    rw [weightOf, nodes_packageChain, List.getElem?_map, List.getElem?_range hi]
    rfl
  have hdependents : dependentsOf packageChain i = List.range i :=
    (filter_edgesBelow 65 i).trans (if_pos hi)
  have hsum : ∀ n, 1 + ((List.range n).map fun j => 2 ^ j).sum = 2 ^ n := by
    intro n
    induction n with
    | zero => rfl
    | succ n ih =>
      rw [List.range_succ, List.map_append, List.sum_append, ← Nat.add_assoc, ih, List.map_singleton,
        List.sum_singleton]
      omega
  rw [hweight, hdependents, hsum]

/-- The lowest package weighs `2 ^ 64`, and what is stored for it is zero. -/
theorem downstreamWeights_wrap : packageChain.graph.Acyclic ∧
    ∃ w, WalkerState.fromGraph .kahn .id packageChain = some w ∧
      w.downstreamWeights.lookup 64 = some 0 ∧
      ∀ {W}, IsDownstreamWeight packageChain W → W 64 = 2 ^ 64 := by
  have hlt : ∀ e ∈ packageChain.graph.edges, e.1 < e.2 := fun e he => (mem_edgesBelow.1 he).1
  have hg : packageChain.graph.Acyclic := by
    have hpath : ∀ {i j}, TransGen packageChain.graph.Edge i j → i < j := by
      intro i j hij
      induction hij with
      | single hedge => exact hlt _ hedge
      | tail _ hedge ih => exact ih.trans (hlt _ hedge)
    exact fun i hi => (hpath hi).false
  obtain ⟨w, hw, -, -, hweights⟩ := fromGraph_inv .kahn .id hg
  have hmem : 64 < packageChain.graph.nodes.length := by
    rw [length_packageChain]
    omega
  refine ⟨hg, w, hw, hweights isDownstreamWeight_packageChain 64 hmem, fun {W} hW => ?_⟩
  rw [(isDownstreamWeight_iff hg).1 hW 64 hmem,
    ← (isDownstreamWeight_iff hg).1 isDownstreamWeight_packageChain 64 hmem]

end Luchta.Proof.Walker
