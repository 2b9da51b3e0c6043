import Luchta.Framework.Layers
import Luchta.Framework.Partial
import Luchta.Spec.Schedule
import Mathlib.Data.Finset.Card

/-!
# The walker's state

`StateInv` ties the walker's maps to its graph: the labels form a consistent schedule, the counter
of a pending node is the number of its edges to nodes that have not succeeded, and the terminal
counter is the number of terminal nodes.

* `fromGraph_inv`: building the state of an acyclic graph does not panic, and establishes it.
* `setRunning_inv`, `markSucceeded_inv`, `markFailed_inv`: the transitions keep it.
* `skipLoop_spec`: the breadth-first search skips exactly what a failure leaves without hope.
-/

namespace Luchta.Proof.Walker

open Luchta.Framework Luchta.Impl Luchta.Spec

variable {g : TaskGraph} {w : WalkerState} {states : HashMap Nat NodeState}

/-- The nodes with an edge into `i`, one for each edge. -/
def dependentsOf (g : TaskGraph) (i : Nat) : List Nat :=
  (g.graph.edges.filter fun e => e.2 = i).map Prod.fst

/-- The edges from `i` to nodes that have not succeeded. -/
def unmet (g : TaskGraph) (states : HashMap Nat NodeState) (i : Nat) : Nat :=
  g.graph.edges.countP fun e => e.1 = i ∧ states.lookup e.2 ≠ some .Succeeded

def terminalNodes (g : TaskGraph) (states : HashMap Nat NodeState) : Finset Nat :=
  (Finset.range g.graph.nodes.length).filter fun i =>
    (states.lookup i).any NodeState.terminal

structure StateInv (g : TaskGraph) (w : WalkerState) : Prop where
  nodes : ∀ i, w.nodes.lookup i = g.graph.nodes[i]?
  total : w.totalCount = g.graph.nodes.length
  dependents : ∀ {i}, i < g.graph.nodes.length → w.dependents.lookup i = some (dependentsOf g i)
  dom : ∀ {i}, (w.states.lookup i).isSome ↔ i < g.graph.nodes.length
  consistent : Consistent g.graph.Edge fun i => w.states.lookup i
  remaining : ∀ {i}, w.states.lookup i = some .Pending →
    w.dependenciesRemaining.lookup i = some (unmet g w.states i)
  count : w.terminalCount = (terminalNodes g w.states).card

theorem mem_dependentsOf {i j : Nat} : j ∈ dependentsOf g i ↔ g.graph.Edge j i := by
  simp [dependentsOf, DiGraph.Edge]

theorem mem_terminalNodes {i : Nat} :
    i ∈ terminalNodes g states ↔ i < g.graph.nodes.length ∧ Terminal (fun i => states.lookup i) i := by
  rw [terminalNodes, Finset.mem_filter, Finset.mem_range, Option.any_eq_true]
  rfl

theorem unmet_eq_zero {i : Nat} :
    unmet g states i = 0 ↔ ∀ j, g.graph.Edge i j → states.lookup j = some .Succeeded := by
  simp only [unmet, List.countP_eq_zero, decide_eq_true_eq, not_and, not_not, Prod.forall,
    DiGraph.Edge]
  exact ⟨fun h j hj => h i j hj rfl, fun h i' j hj hi => h j (hi ▸ hj)⟩

/-- Labels that change only away from `Succeeded` leave the counters of the others alone. -/
theorem unmet_congr {states' : HashMap Nat NodeState}
    (h : ∀ j, states'.lookup j = some .Succeeded ↔ states.lookup j = some .Succeeded) (i : Nat) :
    unmet g states' i = unmet g states i :=
  List.countP_congr fun e _ => by simp [h]

/-! ## Terminal nodes -/

theorem terminalNodes_insert {i : Nat} {s : NodeState} (hi : i < g.graph.nodes.length)
    (hs : s.terminal) :
    terminalNodes g (states.insert i s) = insert i (terminalNodes g states) := by
  ext j
  rw [Finset.mem_insert, mem_terminalNodes, mem_terminalNodes]
  by_cases hj : j = i
  · subst hj
    simp [hi, Terminal, hs]
  · simp [hj, Terminal]

theorem terminalNodes_insert_of_not {i : Nat} {s : NodeState}
    (hs : ¬ s.terminal) (hold : i ∉ terminalNodes g states) :
    terminalNodes g (states.insert i s) = terminalNodes g states := by
  ext j
  rw [mem_terminalNodes, mem_terminalNodes]
  by_cases hj : j = i
  · subst hj
    simp only [mem_terminalNodes, not_and] at hold
    simpa [Terminal, hs] using hold
  · simp [hj, Terminal]

theorem notMem_terminalNodes {i : Nat} {s : NodeState} (h : states.lookup i = some s)
    (hs : ¬ s.terminal) : i ∉ terminalNodes g states := by
  simp [mem_terminalNodes, Terminal, h, hs]

theorem card_terminalNodes_insert {i : Nat} {s t : NodeState} (hi : i < g.graph.nodes.length)
    (h : states.lookup i = some s) (hs : ¬ s.terminal) (ht : t.terminal) :
    (terminalNodes g (states.insert i t)).card = (terminalNodes g states).card + 1 := by
  rw [terminalNodes_insert hi ht, Finset.card_insert_of_notMem (notMem_terminalNodes h hs)]

/-- The counter reaches the number of nodes exactly when every node is terminal. -/
theorem StateInv.total_le_iff (h : StateInv g w) :
    w.totalCount ≤ w.terminalCount ↔
      ∀ i < g.graph.nodes.length, Terminal (fun i => w.states.lookup i) i := by
  have hsub : terminalNodes g w.states ⊆ Finset.range g.graph.nodes.length :=
    Finset.filter_subset _ _
  rw [h.count, h.total]
  constructor
  · intro hle i hi
    have heq := Finset.eq_of_subset_of_card_le hsub (by simpa using hle)
    have := heq ▸ Finset.mem_range.2 hi
    exact (mem_terminalNodes.1 this).2
  · intro hall
    have hsup : Finset.range g.graph.nodes.length ⊆ terminalNodes g w.states := fun i hi =>
      mem_terminalNodes.2 ⟨Finset.mem_range.1 hi, hall i (Finset.mem_range.1 hi)⟩
    simpa using Finset.card_le_card hsup

theorem StateInv.lt_of_lookup (h : StateInv g w) {i : Nat} {s : NodeState}
    (hs : w.states.lookup i = some s) : i < g.graph.nodes.length :=
  h.dom.1 (by rw [hs]; rfl)

theorem isSome_insert_iff {i : Nat} (hi : i < g.graph.nodes.length) {s : NodeState}
    (hdom : ∀ {j}, (states.lookup j).isSome ↔ j < g.graph.nodes.length) {j : Nat} :
    ((states.insert i s).lookup j).isSome ↔ j < g.graph.nodes.length := by
  rw [HashMap.lookup_isSome_insert, hdom]
  exact ⟨fun h => h.elim (· ▸ hi) id, .inr⟩

/-! ## Starting and finishing a node -/

theorem setRunning_inv (h : StateInv g w) {i : Nat}
    (hi : Ready g.graph.Edge (fun i => w.states.lookup i) i) : StateInv g (w.setRunning i) := by
  obtain ⟨hp, hdeps⟩ := hi
  have hlt := h.lt_of_lookup hp
  rw [WalkerState.setRunning, if_pos hp]
  have hsucc : ∀ j, (w.states.insert i NodeState.Running).lookup j = some .Succeeded ↔
      w.states.lookup j = some .Succeeded := by
    intro j
    rw [HashMap.lookup_insert_if]
    split
    · subst j
      simp [hp]
    · rfl
  refine { h with dom := isSome_insert_iff hlt h.dom, consistent := ?_, remaining := ?_, count := ?_ }
  · simp only [HashMap.lookup_insert_eq_update]
    exact h.consistent.advance (by simp [hp]) (by simp [Lost, hp]) (by simp [hp]) (.inl rfl) hdeps
  · intro j hj
    have hji : j ≠ i := by rintro rfl; simp at hj
    rw [unmet_congr hsucc]
    exact h.remaining (by simpa [hji] using hj)
  · rw [h.count, terminalNodes_insert_of_not (by simp [NodeState.terminal])]
    exact notMem_terminalNodes hp (by simp [NodeState.terminal])

/-- The counters of the pending dependents drop by their number of edges, the others stay. -/
theorem decrementRemaining_spec {remaining : HashMap Nat Nat} {ds : List Nat}
    (h : ∀ d ∈ ds, states.lookup d = some .Pending → (remaining.lookup d).isSome) :
    ∃ r, WalkerState.decrementRemaining states remaining ds = some r ∧
      ∀ d, states.lookup d = some .Pending →
        r.lookup d = (remaining.lookup d).map fun n => n - ds.count d := by
  refine foldlM_invariant (fun pre (r : HashMap Nat Nat) => ∀ d, states.lookup d = some .Pending →
    r.lookup d = (remaining.lookup d).map fun n => n - pre.count d) (by simp) ?_
  intro pre a post r hsplit hr
  by_cases ha : states.lookup a = some .Pending
  · obtain ⟨n, hn⟩ := Option.isSome_iff_exists.1 (h a (by simp [hsplit]) ha)
    have hra := hr a ha
    rw [hn, Option.map_some] at hra
    refine ⟨r.insert a (n - pre.count a - 1), by simp [ha, hra], fun d hd => ?_⟩
    rw [HashMap.lookup_insert_if]
    split
    · subst d
      simp [hn, Nat.sub_sub]
    · rename_i hne
      simp [hr d hd, List.count_append, Ne.symm hne]
  · refine ⟨r, by simp [ha], fun d hd => ?_⟩
    have hne : a ≠ d := by rintro rfl; exact ha hd
    simp [hr d hd, List.count_append, hne]

theorem countP_add_countP {α : Type*} {p q r : α → Bool} (l : List α)
    (h : ∀ a, (p a).toNat + (q a).toNat = (r a).toNat) :
    l.countP p + l.countP q = l.countP r := by
  induction l with
  | nil => rfl
  | cons a l ih =>
    have := h a
    rw [List.countP_cons, List.countP_cons, List.countP_cons]
    cases hp : p a <;> cases hq : q a <;> cases hr : r a <;> simp_all <;> omega

/-- A node that succeeds meets each of its edges once. -/
theorem unmet_insert_succeeded {i j : Nat} (hi : states.lookup i ≠ some .Succeeded) :
    unmet g (states.insert i .Succeeded) j = unmet g states j - (dependentsOf g i).count j := by
  have : unmet g (states.insert i .Succeeded) j + (dependentsOf g i).count j =
      unmet g states j := by
    rw [dependentsOf, List.count_eq_countP, List.countP_map, List.countP_filter]
    refine countP_add_countP _ fun ⟨a, b⟩ => ?_
    by_cases hb : b = i
    · subst hb
      by_cases ha : a = j <;> simp [ha, hi]
    · by_cases ha : a = j <;> simp [ha, hb]
  omega

theorem markSucceeded_inv (h : StateInv g w) {i : Nat} (hi : w.states.lookup i = some .Running) :
    ∃ w', w.markSucceeded i = some w' ∧ StateInv g w' ∧
      w'.states = w.states.insert i .Succeeded := by
  have hlt := h.lt_of_lookup hi
  have hold : ∀ {j}, (w.states.insert i NodeState.Succeeded).lookup j = some .Pending →
      w.states.lookup j = some .Pending := by
    intro j hj
    have hji : j ≠ i := by rintro rfl; simp at hj
    simpa [hji] using hj
  have hsome : ∀ d ∈ dependentsOf g i, (w.states.insert i NodeState.Succeeded).lookup d =
      some .Pending → (w.dependenciesRemaining.lookup d).isSome :=
    fun d _ hd => by rw [h.remaining (hold hd)]; rfl
  obtain ⟨r, hr, hcount⟩ := decrementRemaining_spec hsome
  refine ⟨{ w with
      states := w.states.insert i .Succeeded
      terminalCount := w.terminalCount + 1
      dependenciesRemaining := r }, ?_, ?_, rfl⟩
  · simp [WalkerState.markSucceeded, hi, h.dependents hlt, WalkerState.bumpTerminalCount, hr]
  refine { h with dom := isSome_insert_iff hlt h.dom, consistent := ?_, remaining := ?_, count := ?_ }
  · simp only [HashMap.lookup_insert_eq_update]
    exact h.consistent.advance (by simp [hi]) (by simp [Lost, hi]) (by simp [hi]) (.inr rfl)
      fun j hj => h.consistent.started (.inl hi) hj
  · intro j hj
    rw [hcount j hj, h.remaining (hold hj), unmet_insert_succeeded (by simp [hi])]
    rfl
  · rw [card_terminalNodes_insert hlt hi (by simp [NodeState.terminal]) rfl, ← h.count]

/-! ## Skipping what a failure leaves without hope -/

/-- What the search keeps: its queue is a frontier of nodes with a lost dependency, and it has only
skipped pending nodes, `skipped` of them, since the labels were `start`. -/
structure SkipInv (g : TaskGraph) (start : HashMap Nat NodeState) (queue visited : List Nat)
    (states : HashMap Nat NodeState) (skipped : Nat) : Prop where
  dom : ∀ {i}, (states.lookup i).isSome ↔ i < g.graph.nodes.length
  consistent : ConsistentUpTo g.graph.Edge (· ∈ queue) fun i => states.lookup i
  queued : ∀ d ∈ queue, ∃ j, g.graph.Edge d j ∧ Lost (fun i => states.lookup i) j
  visited : ∀ d ∈ visited, states.lookup d ≠ some .Pending
  frame : ∀ i, states.lookup i = start.lookup i ∨
    start.lookup i = some .Pending ∧ states.lookup i = some .Skipped
  count : (terminalNodes g states).card = (terminalNodes g start).card + skipped

variable {start : HashMap Nat NodeState} {queue visited : List Nat} {skipped : Nat}

/-- A node of the queue that is not pending needs no further look. -/
theorem SkipInv.drop {d : Nat} (h : SkipInv g start (d :: queue) visited states skipped)
    (hd : states.lookup d ≠ some .Pending) :
    SkipInv g start queue (d :: visited) states skipped := by
  refine { h with consistent := h.consistent.mono ?_, queued := ?_, visited := ?_ }
  · intro i hi hmem
    exact (List.mem_cons.1 hmem).resolve_left (by rintro rfl; exact hd hi)
  · exact fun i hi => h.queued i (List.mem_cons_of_mem _ hi)
  · intro i hi
    rcases List.mem_cons.1 hi with rfl | hi
    · exact hd
    · exact h.visited i hi

/-- A pending node of the queue is skipped, and its dependents join the queue. -/
theorem SkipInv.skip {d : Nat} (h : SkipInv g start (d :: queue) visited states skipped)
    (hd : states.lookup d = some .Pending) :
    SkipInv g start (queue ++ dependentsOf g d) (d :: visited) (states.insert d .Skipped)
      (skipped + 1) := by
  have hlt : d < g.graph.nodes.length := h.dom.1 (by rw [hd]; rfl)
  have hlost : ∀ {j}, Lost (fun i => states.lookup i) j →
      Lost (fun i => (states.insert d .Skipped).lookup i) j := by
    intro j hj
    rw [HashMap.lookup_insert_eq_update]
    refine lost_update (fun hl heq => ?_) hj
    subst heq
    simp [Lost, hd] at hl
  refine ⟨isSome_insert_iff hlt h.dom, ?_, ?_, ?_, ?_, ?_⟩
  · rw [HashMap.lookup_insert_eq_update]
    refine (h.consistent.skip hd (h.queued d List.mem_cons_self)).mono ?_
    rintro i - (⟨hne, hi⟩ | hi)
    · exact List.mem_append_left _ ((List.mem_cons.1 hi).resolve_left hne)
    · exact List.mem_append_right _ (mem_dependentsOf.2 hi)
  · intro i hi
    rcases List.mem_append.1 hi with hi | hi
    · obtain ⟨j, he, hj⟩ := h.queued i (List.mem_cons_of_mem _ hi)
      exact ⟨j, he, hlost hj⟩
    · exact ⟨d, mem_dependentsOf.1 hi, .inr (AList.lookup_insert _)⟩
  · intro i hi
    rw [HashMap.lookup_insert_if]
    split
    · simp
    · exact h.visited i ((List.mem_cons.1 hi).resolve_left ‹_›)
  · intro i
    rw [HashMap.lookup_insert_if]
    split
    · subst i
      refine .inr ⟨?_, rfl⟩
      rcases h.frame d with heq | ⟨-, hs⟩
      · exact heq ▸ hd
      · simp [hd] at hs
    · exact h.frame i
  · rw [card_terminalNodes_insert hlt hd (by simp [NodeState.terminal]) rfl, h.count, Nat.add_assoc]

theorem skipLoop_spec {dependents : HashMap Nat (List Nat)}
    (hdep : ∀ {i}, i < g.graph.nodes.length → dependents.lookup i = some (dependentsOf g i))
    (h : SkipInv g start queue visited states skipped) :
    ∃ visited', SkipInv g start [] visited'
      (WalkerState.skipLoop dependents queue visited states skipped).1
      (WalkerState.skipLoop dependents queue visited states skipped).2 := by
  fun_induction WalkerState.skipLoop dependents queue visited states skipped with
  | case1 visited states skipped => exact ⟨visited, h⟩
  | case2 visited states skipped d queue hmem ih => 
    have hd := h.drop (h.visited d hmem)
    exact ih { hd with visited := h.visited }
  | case3 visited states skipped d queue hmem hd ih =>
    have hlt : d < g.graph.nodes.length := h.dom.1 (by rw [hd]; rfl)
    rw [hdep hlt] at ih ⊢
    exact ih (h.skip hd)
  | case4 visited states skipped d queue hmem hd ih => exact ih (h.drop hd)

theorem skipDependents_eq (i : Nat) :
    w.skipDependents i =
      let r := WalkerState.skipLoop w.dependents ((w.dependents.lookup i).getD []) [] w.states 0
      { w with states := r.1, terminalCount := w.terminalCount + r.2 } := by
  rw [WalkerState.skipDependents]
  generalize WalkerState.skipLoop _ _ _ _ _ = r
  obtain ⟨states, skipped⟩ := r
  cases skipped <;> rfl

theorem markFailed_eq {i : Nat} (hi : w.states.lookup i = some .Running) :
    w.markFailed i =
      let r := WalkerState.skipLoop w.dependents ((w.dependents.lookup i).getD []) []
        (w.states.insert i .Failed) 0
      { w with states := r.1, terminalCount := w.terminalCount + 1 + r.2 } := by
  rw [WalkerState.markFailed, if_neg (by simp [hi]), skipDependents_eq]
  rfl

theorem markFailed_inv (h : StateInv g w) {i : Nat} (hi : w.states.lookup i = some .Running) :
    StateInv g (w.markFailed i) ∧
      ∀ j, (w.markFailed i).states.lookup j = (w.states.insert i .Failed).lookup j ∨
        w.states.lookup j = some .Pending ∧ (w.markFailed i).states.lookup j = some .Skipped := by
  have hlt := h.lt_of_lookup hi
  have hstart : SkipInv g (w.states.insert i .Failed) (dependentsOf g i) []
      (w.states.insert i .Failed) 0 := by
    refine ⟨isSome_insert_iff hlt h.dom, ?_, fun d hd => ?_, by simp, fun _ => .inl rfl, rfl⟩
    · rw [HashMap.lookup_insert_eq_update]
      exact (h.consistent.fail hi).mono fun j _ hj => mem_dependentsOf.2 hj
    · exact ⟨i, mem_dependentsOf.1 hd, .inl (AList.lookup_insert _)⟩
  obtain ⟨_, hskip⟩ := skipLoop_spec h.dependents hstart
  rw [markFailed_eq hi]
  simp only [h.dependents hlt, Option.getD_some]
  generalize WalkerState.skipLoop _ _ _ _ _ = r at hskip
  have hpending : ∀ {j}, (w.states.insert i NodeState.Failed).lookup j = some .Pending →
      w.states.lookup j = some .Pending := by
    intro j hj
    have hji : j ≠ i := by rintro rfl; simp at hj
    simpa [hji] using hj
  have hsucc : ∀ j, r.1.lookup j = some .Succeeded ↔ w.states.lookup j = some .Succeeded := by
    intro j
    have hins : (w.states.insert i NodeState.Failed).lookup j = some .Succeeded ↔
        w.states.lookup j = some .Succeeded := by
      rw [HashMap.lookup_insert_if]
      split
      · subst j
        simp [hi]
      · rfl
    rcases hskip.frame j with heq | ⟨hp, hs⟩
    · rw [heq, hins]
    · simp [hs, hpending hp]
  refine ⟨{ h with
    dom := hskip.dom, consistent := ?_, remaining := fun {j} hj => ?_, count := ?_ }, fun j => ?_⟩
  · exact hskip.consistent.mono fun j _ hj => absurd hj List.not_mem_nil
  · rw [unmet_congr hsucc]
    rcases hskip.frame j with heq | ⟨-, hs⟩
    · exact h.remaining (hpending (heq ▸ hj))
    · simp [hs] at hj
  · rw [hskip.count, card_terminalNodes_insert hlt hi (by simp [NodeState.terminal]) rfl, h.count]
  · exact (hskip.frame j).imp_right fun hj => ⟨hpending hj.1, hj.2⟩

/-- Settling a running node never panics: it is settled, and pending nodes may be skipped. -/
theorem settle_inv (h : StateInv g w) {i : Nat} (hi : w.states.lookup i = some .Running) (b : Bool) :
    ∃ w', w.settle i b = some w' ∧ StateInv g w' ∧
      w'.states.lookup i = some (if b then .Succeeded else .Failed) ∧
      ∀ j ≠ i, w'.states.lookup j = w.states.lookup j ∨
        w.states.lookup j = some .Pending ∧ w'.states.lookup j = some .Skipped := by
  cases b with
  | true =>
    obtain ⟨w', hw, hinv, hstates⟩ := markSucceeded_inv h hi
    refine ⟨w', hw, hinv, by simp [hstates], fun j hj => .inl ?_⟩
    simp [hstates, hj]
  | false =>
    obtain ⟨hinv, hframe⟩ := markFailed_inv h hi
    refine ⟨_, rfl, hinv, ?_, fun j hj => ?_⟩
    · rcases hframe i with heq | ⟨hp, -⟩
      · simpa using heq
      · cases hp.symm.trans hi
    · simpa [hj] using hframe j

/-! ## Building the state -/

/-- A map that binds every node index by the same function. -/
theorem lookup_ofList_nodes {ν : Type} (f : Nat → ν) (i : Nat) :
    (HashMap.ofList (g.graph.nodeReferences.map fun r => (r.1, f r.1))).lookup i =
      if i < g.graph.nodes.length then some (f i) else none := by
  have hnd : ((g.graph.nodeReferences.map fun r => (r.1, f r.1)).map Prod.fst).Nodup := by
    rw [List.map_map]
    exact DiGraph.nodeReferences_fst ▸ List.nodup_range
  ext v
  rw [HashMap.lookup_ofList hnd, List.mem_map, Option.ite_none_right_eq_some]
  constructor
  · rintro ⟨⟨i', node⟩, hmem, heq⟩
    obtain ⟨rfl, rfl⟩ := Prod.mk.inj heq
    exact ⟨(List.getElem?_eq_some_iff.1 (DiGraph.mem_nodeReferences.1 hmem)).1, rfl⟩
  · rintro ⟨hi, hv⟩
    refine ⟨(i, g.graph.nodes[i]), DiGraph.mem_nodeReferences.2 (List.getElem?_eq_getElem hi), ?_⟩
    rw [Option.some.inj hv]

theorem lookup_nodes (i : Nat) :
    (HashMap.ofList g.graph.nodeReferences).lookup i = g.graph.nodes[i]? := by
  ext v
  rw [HashMap.lookup_ofList (DiGraph.nodeReferences_fst ▸ List.nodup_range),
    DiGraph.mem_nodeReferences]

/-- A map that binds exactly the node indices has as many entries as there are nodes. -/
theorem length_entries {ν : Type} {m : HashMap Nat ν}
    (hdom : ∀ i, (m.lookup i).isSome ↔ i < g.graph.nodes.length) :
    m.entries.length = g.graph.nodes.length := by
  have hmem : ∀ i, i ∈ m.keys ↔ i ∈ List.range g.graph.nodes.length := fun i => by
    rw [← AList.mem_keys, ← AList.lookup_isSome, hdom, List.mem_range]
  have hperm := (List.perm_ext_iff_of_nodup (AList.keys_nodup _) List.nodup_range).2 hmem
  simpa [AList.keys, List.keys] using hperm.length_eq

/-- The walker finds every node again by its task id. -/
theorem lookup_indicesById (rs : RandomState) {i : Nat} {node : TaskNode}
    (h : g.graph.nodes[i]? = some node) :
    (HashMap.ofList ((rs.permute (HashMap.ofList g.graph.nodeReferences).entries).map
      fun e => (e.2.id, e.1))).lookup node.id = some i := by
  have hmem : ∀ {e : Sigma fun _ : Nat => TaskNode},
      e ∈ (HashMap.ofList g.graph.nodeReferences).entries ↔ g.graph.nodes[e.1]? = some e.2 := by
    rintro ⟨j, v⟩
    rw [← AList.mem_lookup_iff, lookup_nodes]
    rfl
  refine (HashMap.lookup_ofList ?_).2 (List.mem_map.2 ⟨⟨i, node⟩, ?_, rfl⟩)
  · rw [List.map_map]
    refine List.Nodup.map_on ?_ ((rs.perm _).nodup_iff.2 (List.NodupKeys.nodup (AList.nodupKeys _)))
    rintro ⟨j, v⟩ hj ⟨k, u⟩ hk heq
    have hj := hmem.1 (rs.mem_permute.1 hj)
    have hk := hmem.1 (rs.mem_permute.1 hk)
    obtain rfl : j = k := g.index_unique hj hk heq
    obtain rfl : v = u := Option.some.inj (hj.symm.trans hk)
    rfl
  · exact rs.mem_permute.2 (hmem.2 h)

/-! ## Downstream weights -/

def weightOf (g : TaskGraph) (i : Nat) : Nat := (g.graph.nodes[i]?.map fun node => node.weight.toNat).getD 0

/-- A node's own weight and the values of its direct dependents, as numbers without a bound. -/
def IsDownstreamWeight (g : TaskGraph) (W : Nat → Nat) : Prop :=
  ∀ i < g.graph.nodes.length, W i = weightOf g i + ((dependentsOf g i).map W).sum

theorem exists_isDownstreamWeight (hg : g.graph.Acyclic) : ∃ W, IsDownstreamWeight g W := by
  obtain ⟨W, hW⟩ := exists_solution hg.wellFounded_flip
    (F := fun W i => weightOf g i + ((dependentsOf g i).map W).sum) fun h => by
      rw [List.map_congr_left fun j hj => h j (mem_dependentsOf.1 hj)]
  exact ⟨W, fun i _ => hW i⟩

/-- Wrapping every addition is wrapping the sum. -/
theorem sum_map_ofNat (W : Nat → Nat) (l : List Nat) :
    (l.map fun i => UInt64.ofNat (W i)).sum = UInt64.ofNat (l.map W).sum := by
  induction l with
  | nil => rfl
  | cons i l ih => rw [List.map_cons, List.sum_cons, ih, List.map_cons, List.sum_cons, UInt64.ofNat_add]

/-- In an order with dependents first, every weight below a node is there when it is needed, and each
value is the true one in 64 bits. -/
theorem computeDownstreamWeights_eq {nodes : HashMap Nat TaskNode} {dependents : HashMap Nat (List Nat)}
    {order : List Nat} (hord : g.graph.IsTopological order)
    (hnodes : ∀ i, nodes.lookup i = g.graph.nodes[i]?)
    (hdep : ∀ {i}, i < g.graph.nodes.length → dependents.lookup i = some (dependentsOf g i))
    {W : Nat → Nat} (hW : IsDownstreamWeight g W) :
    ∃ weights, computeDownstreamWeights nodes dependents order = some weights ∧
      ∀ i ∈ order, weights.lookup i = some (UInt64.ofNat (W i)) := by
  refine foldlM_invariant (fun pre (weights : HashMap Nat UInt64) =>
    ∀ j ∈ pre, weights.lookup j = some (UInt64.ofNat (W j))) (by simp) fun pre i post weights hsplit hpre => ?_
  have hi : i < g.graph.nodes.length := hord.mem.1 (by simp [hsplit])
  have hbefore : ∀ d ∈ dependentsOf g i, weights.lookup d = some (UInt64.ofNat (W d)) := by
    intro d hd
    have hlt := hord.ordered (mem_dependentsOf.1 hd)
    have hnot : i ∉ pre := by
      have := hord.nodup
      rw [hsplit, List.nodup_append] at this
      exact fun hmem => this.2.2 i hmem i List.mem_cons_self rfl
    refine hpre d ?_
    by_contra hd'
    rw [hsplit, List.idxOf_append_of_notMem hnot, List.idxOf_append_of_notMem hd'] at hlt
    simp at hlt
  have hbelow := mapM_eq_some_map hbefore
  have hown : g.graph.nodes[i].weight.toUInt64 = UInt64.ofNat (weightOf g i) := by
    rw [weightOf, List.getElem?_eq_getElem hi]
    exact UInt64.toNat_inj.1 (by simp)
  refine ⟨weights.insert i (UInt64.ofNat (W i)), ?_, fun j hj => ?_⟩
  · simp [weighNode, hnodes, List.getElem?_eq_getElem hi, hdep hi, hbelow, hown, hW i hi, sum_map_ofNat,
      UInt64.ofNat_add]
  · rw [HashMap.lookup_insert_if]
    split
    · rename_i heq
      rw [heq]
    · rename_i hne
      exact hpre j ((List.mem_append.1 hj).resolve_right fun h => hne (List.mem_singleton.1 h))

theorem fromGraph_inv (ts : Toposort TaskNode) (rs : RandomState) (hg : g.graph.Acyclic) :
    ∃ w, WalkerState.fromGraph ts rs g = some w ∧ StateInv g w ∧
      (∀ {i s}, w.states.lookup i = some s → s = .Pending) ∧
      ∀ {W}, IsDownstreamWeight g W → ∀ i < g.graph.nodes.length,
        w.downstreamWeights.lookup i = some (UInt64.ofNat (W i)) := by
  obtain ⟨order, hrun⟩ := ts.ok_of_acyclic hg
  have hord := ts.topological hrun
  have hdep : ∀ {i}, i < g.graph.nodes.length →
      (HashMap.pushAll (HashMap.ofList (g.graph.nodeReferences.map fun r => (r.1, ([] : List Nat))))
        (g.graph.edges.map Prod.swap)).lookup i = some (dependentsOf g i) := by
    intro i hi
    have hnil := (lookup_ofList_nodes (g := g) (fun _ => ([] : List Nat)) i).trans (if_pos hi)
    rw [HashMap.lookup_pushAll hnil, List.filter_map, List.map_map, List.nil_append]
    rfl
  have hsorted : ∃ sorted, g.topologicalOrder ts = .ok sorted ∧ sorted.mapM (fun node =>
      (HashMap.ofList ((rs.permute (HashMap.ofList g.graph.nodeReferences).entries).map
        fun e => (e.2.id, e.1))).lookup node.id) = some order.reverse := by
    refine ⟨_, g.topologicalOrder_ok hrun, ?_⟩
    rw [List.reverse_pmap]
    exact mapM_pmap_eq_some fun i hi => lookup_indicesById rs (List.getElem?_eq_getElem hi)
  obtain ⟨sorted, htopo, hmap⟩ := hsorted
  obtain ⟨W, hW⟩ := exists_isDownstreamWeight hg
  obtain ⟨weights, hweights, -⟩ := computeDownstreamWeights_eq hord lookup_nodes hdep hW
  have hstates : ∀ i, (HashMap.ofList (g.graph.nodeReferences.map
      fun r => (r.1, NodeState.Pending))).lookup i =
        if i < g.graph.nodes.length then some .Pending else none :=
    lookup_ofList_nodes fun _ => NodeState.Pending
  refine ⟨_, by simp [WalkerState.fromGraph, htopo, hmap, hweights, Except.toOption]; rfl, ?_⟩
  have hpending : ∀ {i s}, (HashMap.ofList (g.graph.nodeReferences.map
      fun r => (r.1, NodeState.Pending))).lookup i = some s → s = .Pending := by
    intro i s hs
    rw [hstates, Option.ite_none_right_eq_some] at hs
    exact (Option.some.inj hs.2).symm
  refine ⟨⟨lookup_nodes, length_entries fun i => by simp [lookup_nodes], hdep, ?_, ?_, ?_, ?_⟩,
    hpending, fun {W'} hW' i hi => ?_⟩
  · intro i
    simp [hstates]
  · refine ⟨fun hd => ?_, fun _ _ hb => ?_, fun ha => ?_, fun ha _ => ?_⟩
    · simp [hstates, hd.lt]
    · rcases hb with hb | hb <;> cases hpending hb
    · cases hpending ha
    · rcases ha with ha | ha | ha <;> cases hpending ha
  · intro i hi
    have hlt : i < g.graph.nodes.length := by
      rw [hstates, Option.ite_none_right_eq_some] at hi
      exact hi.1
    refine ((lookup_ofList_nodes (fun i => (g.graph.neighborsOut i).length) i).trans
      (if_pos hlt)).trans (congrArg some ?_)
    rw [DiGraph.neighborsOut, List.length_reverse, List.length_map, ← List.countP_eq_length_filter]
    refine List.countP_congr fun e _ => ?_
    have hne : (HashMap.ofList (g.graph.nodeReferences.map
        fun r => (r.1, NodeState.Pending))).lookup e.2 ≠ some .Succeeded := fun h => by
      cases hpending h
    simp [hne]
  · refine (Finset.card_eq_zero.2 (Finset.eq_empty_of_forall_notMem fun i hi => ?_)).symm
    obtain ⟨s, hs, ht⟩ := (mem_terminalNodes.1 hi).2
    cases hpending hs
    cases ht
  · obtain ⟨weights', hweights', hvalue⟩ := computeDownstreamWeights_eq hord lookup_nodes hdep hW'
    obtain rfl := Option.some.inj (hweights.symm.trans hweights')
    exact hvalue i (hord.mem.2 hi)

end Luchta.Proof.Walker
