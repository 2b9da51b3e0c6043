import Luchta.Framework.Layers
import Luchta.Impl.Waves
import Luchta.Proof.TaskGraph.Build

/-!
# Execution waves are the layers of the selected tasks

* `isLeast_expandWithDependencies`: the selected tasks.
* `computes_resolveDepth`: whatever is remembered already, a task's depth is its height among them.
* `computeExecutionWaves_layered`: the waves group the tasks by that.
-/

namespace Luchta.Proof.TaskGraph

open Luchta.Framework Luchta.Impl
open Relation (TransGen ReflTransGen)

variable {g : TaskGraph}

/-! ## Dependencies -/

theorem mem_dependenciesOf {a b : TaskId} : b ∈ (g.dependenciesOf a).map TaskNode.id ↔ HasEdge g a b := by
  unfold TaskGraph.dependenciesOf
  split
  · rename_i hnone
    refine ⟨fun h => absurd h List.not_mem_nil, fun ⟨i, j, hi, _⟩ => ?_⟩
    cases hnone.symm.trans hi
  · rename_i i hi
    rw [List.map_pmap, List.mem_pmap]
    constructor
    · rintro ⟨j, hj, rfl⟩
      have hlt := (DiGraph.mem_neighborsOut.1 hj).lt.2
      exact ⟨i, j, hi, g.indices_iff.2 ⟨_, List.getElem?_eq_getElem hlt, rfl⟩, DiGraph.mem_neighborsOut.1 hj⟩
    · rintro ⟨i', j, hi', hj, hedge⟩
      obtain rfl := Option.some.inj (hi.symm.trans hi')
      obtain ⟨node, hnode, rfl⟩ := g.indices_iff.1 hj
      obtain ⟨hlt, hget⟩ := List.getElem?_eq_some_iff.1 hnode
      exact ⟨j, DiGraph.mem_neighborsOut.2 hedge, by rw [hget]⟩

theorem wellFounded_hasEdge (hg : g.graph.Acyclic) : WellFounded fun b a => HasEdge g a b := by
  refine Subrelation.wf (fun {b a} h => ?_)
    (InvImage.wf (fun id => (g.indicesById.lookup id).getD 0) hg.wellFounded)
  obtain ⟨i, j, hi, hj, hedge⟩ := h
  show g.graph.Edge ((g.indicesById.lookup a).getD 0) ((g.indicesById.lookup b).getD 0)
  rw [hi, hj]
  exact hedge

theorem hasTask_of_hasEdge {a b : TaskId} (h : HasEdge g a b) : HasTask g a ∧ HasTask g b := by
  obtain ⟨i, j, hi, hj, -⟩ := h
  exact ⟨by rw [HasTask, hi]; rfl, by rw [HasTask, hj]; rfl⟩

theorem mem_ids {id : TaskId} : id ∈ g.graph.nodes.map TaskNode.id ↔ HasTask g id := by
  rw [hasTask_iff, List.mem_map]

/-- With a task, the set has its direct dependencies. -/
def Closed (g : TaskGraph) (S : Set TaskId) : Prop := ∀ {a b}, a ∈ S → HasEdge g a b → b ∈ S

theorem mem_expandWithDependencies (rs : RandomState) (g : TaskGraph) (seed : List TaskId) {id : TaskId} :
    id ∈ expandWithDependencies rs g seed ↔ ∃ s ∈ seed, ReflTransGen (HasEdge g) s id := by
  have hedge : ∀ {a b}, HasEdge g a b → b ∈ g.graph.nodes.map TaskNode.id ++ rs.permute seed := fun h =>
    List.mem_append_left _ (mem_ids.2 (hasTask_of_hasEdge h).2)
  have hnext : ∀ a ∈ g.graph.nodes.map TaskNode.id ++ rs.permute seed, ∃ l,
      (.ok ((g.dependenciesOf a).map TaskNode.id) : Except Empty (List TaskId)) = .ok l ∧
        ∀ b, b ∈ l ↔ HasEdge g a b := fun a _ => ⟨_, rfl, fun b => mem_dependenciesOf⟩
  obtain ⟨visited, hsearch, hmem⟩ := @Worklist.search_ok _ _ _ _ _ (rs.permute seed) .lifo _ hedge hnext
    fun a ha => List.mem_append_right _ ha
  rw [List.length_append, List.length_map, (rs.perm seed).length_eq] at hsearch
  unfold expandWithDependencies
  dsimp only
  rw [hsearch]
  show id ∈ visited ↔ _
  rw [hmem]
  simp only [RandomState.mem_permute]

theorem isLeast_expandWithDependencies (rs : RandomState) (g : TaskGraph) (seed : List TaskId) :
    IsLeast {S : Set TaskId | (∀ id ∈ seed, id ∈ S) ∧ Closed g S}
      {id | id ∈ expandWithDependencies rs g seed} := by
  refine ⟨⟨fun id hid => ?_, fun {a b} ha hab => ?_⟩, fun S ⟨hseed, hclosed⟩ id hid => ?_⟩
  · exact (mem_expandWithDependencies rs g seed).2 ⟨id, hid, .refl⟩
  · obtain ⟨s, hs, hreach⟩ := (mem_expandWithDependencies rs g seed).1 ha
    exact (mem_expandWithDependencies rs g seed).2 ⟨s, hs, hreach.tail hab⟩
  · obtain ⟨s, hs, hreach⟩ := (mem_expandWithDependencies rs g seed).1 hid
    induction hreach with
    | refl => exact hseed s hs
    | tail hreach hedge ih =>
      exact hclosed (ih ((mem_expandWithDependencies rs g seed).2 ⟨s, hs, hreach⟩)) hedge

/-! ## Depths -/

section Depths

variable {included : List TaskId} {w : TaskId → Nat}

/-- The included tasks that a task depends on. -/
def includedDependencies (g : TaskGraph) (included : List TaskId) (id : TaskId) : List TaskId :=
  ((g.dependenciesOf id).map TaskNode.id).filter (· ∈ included)

theorem mem_includedDependencies {a b : TaskId} :
    b ∈ includedDependencies g included a ↔ HasEdge g a b ∧ b ∈ included := by
  rw [includedDependencies, List.mem_filter, mem_dependenciesOf, decide_eq_true_eq]

theorem exists_heights (hg : g.graph.Acyclic) (included : List TaskId) :
    ∃ w, IsHeight (includedDependencies g included) w :=
  exists_isHeight (Subrelation.wf (fun h => (mem_includedDependencies.1 h).1) (wellFounded_hasEdge hg))

/-- A chain of dependencies passes distinct tasks of the graph. -/
theorem height_le (hg : g.graph.Acyclic) {S : TaskId → Prop} (hlayers : Layering (HasEdge g) S w)
    {id : TaskId} (hid : S id) : w id ≤ g.graph.nodes.length := by
  obtain ⟨c, hchain, -, hlen⟩ := hlayers.exists_chain hid
  have hnodup := (nodup_of_isChain (acyclic_iff.1 hg) hchain).of_cons
  have hsub : ∀ b ∈ c, b ∈ g.graph.nodes.map TaskNode.id := by
    intro b hb
    obtain ⟨a, hab⟩ : ∃ a, HasEdge g a b := exists_dep_of_mem_chain hchain hb
    exact mem_ids.2 (hasTask_of_hasEdge hab).2
  have hle := (hnodup.subperm hsub).length_le
  rw [List.length_map] at hle
  omega

/-- What is remembered are heights of included tasks, those of `known` among them. -/
structure Truthful (included : List TaskId) (w : TaskId → Nat) (known : TaskId → Prop)
    (waveOf : HashMap TaskId Nat) : Prop where
  height : ∀ {id d}, waveOf.lookup id = some d → id ∈ included ∧ w id = d
  known : ∀ {id}, known id → (waveOf.lookup id).isSome

variable {known : TaskId → Prop}

theorem Truthful.insert {waveOf : HashMap TaskId Nat} (h : Truthful included w known waveOf) {id : TaskId}
    (hid : id ∈ included) : Truthful included w known (waveOf.insert id (w id)) where
  height {id' d} hd := by
    rw [HashMap.lookup_insert_if] at hd
    split at hd
    · rename_i heq
      rw [heq]
      exact ⟨hid, Option.some.inj hd⟩
    · exact h.height hd
  known {id'} hid' := by
    rw [HashMap.lookup_isSome_insert]
    exact .inr (h.known hid')

theorem foldl_dependencies (id : TaskId) :
    (g.dependenciesOf id).foldl (fun depth dependency =>
      if dependency.id ∉ included then depth else max depth (w dependency.id + 1)) 0 =
      ((includedDependencies g included id).map fun b => w b + 1).foldl max 0 := by
  rw [includedDependencies, List.foldl_map, List.foldl_filter, List.foldl_map]
  simp only [decide_eq_true_eq, ite_not]

/-- With fuel for its height, a task's depth is computed, whatever is remembered already. -/
theorem computes_resolveDepth (hw : IsHeight (includedDependencies g included) w) {fuel : Nat} {id : TaskId}
    (hid : id ∈ included) (hfuel : w id < fuel) :
    Computes (Truthful included w known) (resolveDepth g included fuel id) (.ok (w id)) := by
  induction fuel generalizing id with
  | zero => exact absurd hfuel (Nat.not_lt_zero _)
  | succ fuel ih =>
    have hlayers : Layering (HasEdge g) (· ∈ included) w := hw.layering mem_includedDependencies
    have hloop : Computes (Truthful included w known) ((g.dependenciesOf id).foldlM (fun depth dependency =>
        if dependency.id ∉ included then pure depth
        else do
          let dependencyDepth ← resolveDepth g included fuel dependency.id
          return max depth (dependencyDepth + 1)) 0) (.ok (w id)) := by
      rw [hw id, ← foldl_dependencies]
      refine Computes.foldlM _ (fun depth dependency hdep => ?_) 0
      split
      · exact .pure depth
      · rename_i hmem
        have hmem := not_not.1 hmem
        have hedge := mem_dependenciesOf.1 (List.mem_map_of_mem hdep)
        have hlt := hlayers.later hid hmem hedge
        exact (ih hmem (by omega)).seq (.pure _)
    refine computes_memo (fun s hs d hd => ?_) (fun s hs _ => hloop s hs) fun s hs d hd => ?_
    · rw [(hs.height hd).2]
    · obtain rfl := Except.ok.inj hd
      exact hs.insert hid

/-- The loop over the included tasks, in any order: each is remembered afterwards. -/
theorem foldlM_resolveDepth (hg : g.graph.Acyclic) (hw : IsHeight (includedDependencies g included) w)
    {l : List TaskId} (hl : ∀ id ∈ l, id ∈ included) {waveOf : HashMap TaskId Nat}
    (h : Truthful included w known waveOf) (n : Nat) :
    ∃ waveOf', l.foldlM (fun maxDepth id => do
        let depth ← resolveDepth g included (g.graph.nodes.length + 1) id
        return max maxDepth depth : Nat → TaskId → Memoised (HashMap TaskId Nat) Unit Nat) n waveOf =
        (.ok ((l.map w).foldl max n), waveOf') ∧
      Truthful included w (fun id => known id ∨ id ∈ l) waveOf' := by
  induction l generalizing known waveOf n with
  | nil => exact ⟨waveOf, rfl, h.height, fun hid => h.known (hid.resolve_right List.not_mem_nil)⟩
  | cons id l ih =>
    have hid := hl id List.mem_cons_self
    have hlt : w id < g.graph.nodes.length + 1 :=
      Nat.lt_succ_of_le (height_le hg (hw.layering mem_includedDependencies) hid)
    obtain ⟨hvalue, hinv⟩ := computes_resolveDepth hw hid hlt waveOf h
    cases hrun : resolveDepth g included (g.graph.nodes.length + 1) id waveOf with
    | mk r waveOf' =>
      rw [hrun] at hvalue hinv
      obtain rfl : r = .ok (w id) := hvalue
      have hnow : (waveOf'.lookup id).isSome := by
        rw [resolveDepth] at hrun
        rw [known_memo (fun d waveOf => AList.lookup_insert waveOf) hrun]
        rfl
      have hinv' : Truthful included w (fun id' => known id' ∨ id' = id) waveOf' :=
        ⟨hinv.height, fun hid' => hid'.elim hinv.known fun heq => heq ▸ hnow⟩
      obtain ⟨waveOf'', hrest, hfinal⟩ := ih (fun id hid => hl id (List.mem_cons_of_mem _ hid)) hinv'
        (max n (w id))
      refine ⟨waveOf'', ?_, hfinal.height, fun {id'} hid' => hfinal.known ?_⟩
      · rw [List.foldlM_cons, bind_run, bind_run, hrun]
        exact hrest
      · rw [List.mem_cons] at hid'
        tauto

/-- What the waves are computed from: every included task's height, and one more than the greatest. -/
theorem computeLongestPathWaves_eq (rs : RandomState) (hg : g.graph.Acyclic)
    (hw : IsHeight (includedDependencies g included) w) (hne : included ≠ []) :
    ∃ waveOf m, computeLongestPathWaves rs g included = .ok (waveOf, m + 1) ∧
      (∀ {id d}, waveOf.lookup id = some d ↔ id ∈ included ∧ w id = d) ∧
      (∀ id ∈ included, w id ≤ m) ∧ ∃ id ∈ included, w id = m := by
  have hempty : Truthful included w (fun _ => False) (∅ : HashMap TaskId Nat) := by
    refine ⟨fun {id d} hd => ?_, False.elim⟩
    rw [AList.lookup_empty] at hd
    cases hd
  obtain ⟨waveOf, hrun, hinv⟩ := foldlM_resolveDepth hg hw
    (fun id hid => (rs.mem_permute).1 hid : ∀ id ∈ rs.permute included, id ∈ included) hempty 0
  refine ⟨waveOf, ((rs.permute included).map w).foldl max 0, ?_, fun {id d} => ⟨hinv.height, ?_⟩,
    fun id hid => ?_, ?_⟩
  · rw [computeLongestPathWaves, if_neg (by rwa [List.isEmpty_iff]), resolveDepths, hrun]
  · rintro ⟨hid, rfl⟩
    obtain ⟨d, hd⟩ := Option.isSome_iff_exists.1 (hinv.known (.inr (rs.mem_permute.2 hid)))
    rw [hd, (hinv.height hd).2]
  · exact le_foldl_max_of_mem (List.mem_map_of_mem (rs.mem_permute.2 hid)) 0
  · rcases foldl_max_mem ((rs.permute included).map w) 0 with hmax | hmax
    · obtain ⟨id, hid⟩ := List.exists_mem_of_ne_nil included hne
      have hle := le_foldl_max_of_mem (List.mem_map_of_mem (f := w) (rs.mem_permute.2 hid)) 0
      exact ⟨id, hid, by omega⟩
    · obtain ⟨id, hid, heq⟩ := List.mem_map.1 hmax
      exact ⟨id, rs.mem_permute.1 hid, heq⟩

end Depths

/-! ## Waves -/

theorem foldlM_pushToWave {es : List (TaskId × Nat)} {waves : List (List TaskId)}
    (h : ∀ e ∈ es, e.2 < waves.length) :
    ∃ waves', es.foldlM pushToWave waves = .ok waves' ∧ waves'.length = waves.length ∧
      ∀ {i l}, waves[i]? = some l →
        waves'[i]? = some (l ++ (es.filter fun e => e.2 = i).map Prod.fst) := by
  induction es generalizing waves with
  | nil => exact ⟨waves, rfl, rfl, fun hl => by rw [hl]; simp⟩
  | cons e es ih =>
    have hlen : (waves.modify e.2 (· ++ [e.1])).length = waves.length := List.length_modify _ _ _
    obtain ⟨waves', hrun, hlen', hget⟩ := @ih (waves.modify e.2 (· ++ [e.1])) fun e' he' => by
      rw [hlen]
      exact h e' (List.mem_cons_of_mem _ he')
    refine ⟨waves', ?_, hlen'.trans hlen, fun {i l} hl => ?_⟩
    · rw [List.foldlM_cons, pushToWave, if_pos (h e List.mem_cons_self)]
      exact hrun
    · rw [List.filter_cons]
      by_cases hi : e.2 = i
      · rw [if_pos (by simpa using hi), List.map_cons, List.append_cons]
        refine hget ?_
        rw [← hi, List.getElem?_modify_eq, hi, hl]
        rfl
      · rw [if_neg (by simpa using hi)]
        refine hget ?_
        rw [List.getElem?_modify_ne _ _ hi, hl]

theorem nodup_entries (waveOf : HashMap TaskId Nat) (rs : RandomState) :
    (((rs.permute waveOf.entries).map fun e => (e.1, e.2)).map Prod.fst).Nodup := by
  rw [List.map_map]
  exact ((rs.perm waveOf.entries).map _).nodup_iff.2 waveOf.nodupKeys

theorem mem_entries {waveOf : HashMap TaskId Nat} {rs : RandomState} {e : TaskId × Nat} :
    e ∈ (rs.permute waveOf.entries).map (fun e => (e.1, e.2)) ↔ waveOf.lookup e.1 = some e.2 := by
  rw [List.mem_map]
  constructor
  · rintro ⟨⟨id, d⟩, hmem, rfl⟩
    exact AList.mem_lookup_iff.2 (rs.mem_permute.1 hmem)
  · exact fun h => ⟨⟨e.1, e.2⟩, rs.mem_permute.2 (AList.mem_lookup_iff.1 h), rfl⟩

/-- On tasks that contain their dependencies, the waves are their layers. -/
theorem computeExecutionWaves_layered (rs : RandomState) (hg : g.graph.Acyclic) {included : List TaskId}
    (hclosed : ∀ {a b}, a ∈ included → HasEdge g a b → b ∈ included) :
    ∃ waves, computeExecutionWaves rs g included = .ok waves ∧
      Layered (HasEdge g) (· ∈ included) waves := by
  obtain ⟨w, hw⟩ := exists_heights hg included
  have hlayers : Layering (HasEdge g) (· ∈ included) w := hw.layering mem_includedDependencies
  by_cases hne : included = []
  · subst hne
    refine ⟨[], rfl, hlayers.layered hclosed ?_ ?_ ?_ (.inl rfl)⟩
    · exact fun l hl => absurd hl List.not_mem_nil
    · exact fun hl => nomatch hl
    · exact fun ha => absurd ha List.not_mem_nil
  · obtain ⟨waveOf, m, hdepths, hlookup, hle, id, hid, hmax⟩ := computeLongestPathWaves_eq rs hg hw hne
    obtain ⟨waves, hrun, hlen, hget⟩ := @foldlM_pushToWave
      ((rs.permute waveOf.entries).map fun e => (e.1, e.2)) (List.replicate (m + 1) []) fun e he => by
        obtain ⟨he, heq⟩ := hlookup.1 (mem_entries.1 he)
        have := hle _ he
        rw [List.length_replicate]
        omega
    rw [List.length_replicate] at hlen
    have hwave : ∀ {i l}, waves[i]? = some l → l = (((rs.permute waveOf.entries).map fun e =>
        (e.1, e.2)).filter fun e => e.2 = i).map Prod.fst := by
      intro i l hl
      have hi := (List.getElem?_eq_some_iff.1 hl).1
      have hzero : (List.replicate (m + 1) ([] : List TaskId))[i]? = some [] := by
        rw [List.getElem?_replicate, if_pos (by omega)]
      exact Option.some.inj (hl.symm.trans (hget hzero))
    refine ⟨waves.map (sortBy TaskId.toString), ?_, hlayers.layered hclosed ?_ ?_ ?_ (.inr ?_)⟩
    · rw [computeExecutionWaves, hdepths]
      dsimp only [bind, Except.bind]
      rw [if_neg (Nat.succ_ne_zero m), hrun]
      rfl
    · intro l hl
      obtain ⟨l', hl', rfl⟩ := List.mem_map.1 hl
      obtain ⟨i, hi⟩ := List.mem_iff_getElem?.1 hl'
      rw [(sortBy_perm _ l').nodup_iff, hwave hi]
      exact (nodup_entries waveOf rs).sublist (List.filter_sublist.map _)
    · intro i l hl a
      rw [List.getElem?_map] at hl
      obtain ⟨l', hi, rfl⟩ := Option.map_eq_some_iff.1 hl
      rw [mem_sortBy, hwave hi, List.mem_map]
      constructor
      · rintro ⟨e, he, rfl⟩
        obtain ⟨he, heq⟩ := List.mem_filter.1 he
        rw [← of_decide_eq_true heq]
        exact hlookup.1 (mem_entries.1 he)
      · intro ha
        exact ⟨(a, i), List.mem_filter.2 ⟨mem_entries.2 (hlookup.2 ha), decide_eq_true rfl⟩, rfl⟩
    · intro a ha
      have := hle a ha
      rw [List.length_map, hlen]
      omega
    · exact ⟨id, hid, by rw [List.length_map, hlen, hmax]⟩

/-- The selected tasks are the least set that contains the request and what its tasks depend on, and the
execution waves are their layers, whatever the sets' iteration orders. -/
theorem executionWaves_correct (hg : g.graph.Acyclic) (rs rs' : RandomState) (seed : List TaskId) :
    IsLeast {S : Set TaskId | (∀ id ∈ seed, id ∈ S) ∧ Closed g S}
      {id | id ∈ expandWithDependencies rs g seed} ∧
    ∃ waves, computeExecutionWaves rs' g (expandWithDependencies rs g seed) = .ok waves ∧
      Layered (HasEdge g) (· ∈ expandWithDependencies rs g seed) waves :=
  ⟨isLeast_expandWithDependencies rs g seed, computeExecutionWaves_layered rs' hg
    (isLeast_expandWithDependencies rs g seed).1.2⟩

/-- A bundle needs a build and a check, the check needs the build, and a lint needs nothing. -/
def bundleGraph : TaskGraph :=
  .ofNodes (["bundle", "check", "build", "lint"].map fun task => ⟨⟨⟨"app"⟩, ⟨task⟩⟩, 1⟩)
    [(0, 2), (0, 1), (1, 2)] ∅ (by decide) (by decide)

theorem acyclic_bundleGraph : bundleGraph.graph.Acyclic :=
  Toposort.kahn.ok_iff.1 ⟨[0, 1, 2, 3], by decide⟩

theorem executionWaves_correct_bundle :
    ∃ waves, computeExecutionWaves .id bundleGraph (expandWithDependencies .id bundleGraph
        [⟨⟨"app"⟩, ⟨"bundle"⟩⟩]) = .ok waves ∧
      Layered (HasEdge bundleGraph)
        (· ∈ expandWithDependencies .id bundleGraph [⟨⟨"app"⟩, ⟨"bundle"⟩⟩]) waves :=
  (executionWaves_correct acyclic_bundleGraph .id .id [⟨⟨"app"⟩, ⟨"bundle"⟩⟩]).2

example : computeExecutionWaves .id bundleGraph (expandWithDependencies .id bundleGraph
      [⟨⟨"app"⟩, ⟨"bundle"⟩⟩]) =
    .ok [[⟨⟨"app"⟩, ⟨"build"⟩⟩], [⟨⟨"app"⟩, ⟨"check"⟩⟩], [⟨⟨"app"⟩, ⟨"bundle"⟩⟩]] := by
  decide +kernel

end Luchta.Proof.TaskGraph
