import Luchta.Framework.Blake3
import Luchta.Proof.Cache.Streams
import Luchta.Proof.Deps.Closure

/-!
# What the dependency pairs of a task cover

The selected roots, as a relation that does not mention the order in which anything is iterated, and
the pairs gathered for them.

* `mem_selectDependencyRoots`: the roots a filter selects.
* `mem_gather`: the gathered pairs are what the selected edges reach in the lockfile.
* `pkg_dep_hash_differs_iff`: the pairs of two lockfiles, and their hashes, differ exactly if the
  edges reach different identities.
-/

namespace Luchta.Proof.Deps

open Luchta.Framework Luchta.Impl

/-- A manifest declares the dependency in one of its three maps. -/
def Declares (m : Manifests) (path : String) (d : String × String) : Prop :=
  ∃ packageJson, m.readPackageJson path = .ok packageJson ∧
    (packageJson.dependencies.lookup d.1 = some d.2 ∨
      packageJson.devDependencies.lookup d.1 = some d.2 ∨
      packageJson.optionalDependencies.lookup d.1 = some d.2)

/-- The directories whose manifests a pattern selects from. -/
def Origin (package : PackageNode) (pg : Option PackageGraph) (repoRoot : String) :
    InputPattern → String → Prop
  | .SamePackage _, path => path = package.path
  | .DirectUpstream _, path => ∃ graph nodes, pg = some graph ∧
      graph.dependenciesOf package.name = .ok nodes ∧ ∃ node ∈ nodes, path = node.path
  | .TransitiveUpstream _, path => ∃ graph names, pg = some graph ∧
      graph.transitiveDependenciesOf package.name = .ok names ∧
      ∃ name ∈ names, name ≠ package.name ∧ ∃ node, graph.node name = .ok node ∧ path = node.path
  | .Specific name _, path =>
    if name.isRoot then path = repoRoot
    else ∃ graph node, pg = some graph ∧ graph.node name = .ok node ∧ path = node.path
  | .Root _, path => path = repoRoot

/-- Some pattern of the filter selects the root. -/
def Selected (m : Manifests) (package : PackageNode) (pg : Option PackageGraph) (repoRoot : String)
    (patterns : List String) (root : SelectedDependencyRoot) : Prop :=
  ∃ rawPattern ∈ patterns, ∃ pattern globset, InputPattern.fromStr rawPattern = .ok pattern ∧
    Origin package pg repoRoot pattern root.originPackagePath ∧
    Declares m root.originPackagePath (root.name, root.version) ∧
    m.glob pattern.path = .ok globset ∧ globset root.name = true

variable {m : Manifests} {rs : RandomState} {package : PackageNode} {pg : Option PackageGraph}
  {repoRoot : String}

theorem mem_collectExternalDependencies {packageJson : PackageJsonExternalDeps}
    {d : String × String} : d ∈ collectExternalDependencies rs packageJson ↔
      packageJson.dependencies.lookup d.1 = some d.2 ∨
      packageJson.devDependencies.lookup d.1 = some d.2 ∨
      packageJson.optionalDependencies.lookup d.1 = some d.2 := by
  have hmem : ∀ deps : HashMap String String,
      d ∈ (rs.permute deps.entries).map (fun e => (e.1, e.2)) ↔ deps.lookup d.1 = some d.2 := by
    intro deps
    rw [← HashMap.mem_permute_entries rs, List.mem_map]
    constructor
    · rintro ⟨e, he, rfl⟩
      exact he
    · exact fun h => ⟨_, h, rfl⟩
  rw [collectExternalDependencies, List.mem_append, List.mem_append, hmem, hmem, hmem, or_assoc]

theorem mem_dependencyRootsFromPairs {deps : List (String × String)} {path : String}
    {root : SelectedDependencyRoot} : root ∈ dependencyRootsFromPairs deps path ↔
      root.originPackagePath = path ∧ (root.name, root.version) ∈ deps := by
  rw [dependencyRootsFromPairs, BTreeSet.mem_extend, List.mem_map]
  constructor
  · rintro (h | ⟨d, hd, rfl⟩)
    · exact absurd h (BTreeSet.not_mem_empty _)
    · exact ⟨rfl, hd⟩
  · rintro ⟨rfl, hd⟩
    exact .inr ⟨_, hd, rfl⟩

theorem mem_readExternalDependencyRoots {path : String} {roots : BTreeSet SelectedDependencyRoot}
    (h : readExternalDependencyRoots m rs path = .ok roots) {root : SelectedDependencyRoot} :
    root ∈ roots ↔ root.originPackagePath = path ∧ Declares m path (root.name, root.version) := by
  obtain ⟨packageJson, hjson, hroots⟩ := bind_eq_ok.1 h
  obtain rfl := Except.ok.inj hroots
  rw [mem_dependencyRootsFromPairs, mem_collectExternalDependencies]
  refine and_congr_right fun _ => ⟨fun h => ⟨packageJson, hjson, h⟩, ?_⟩
  rintro ⟨packageJson', hjson', h⟩
  obtain rfl := Except.ok.inj (hjson.symm.trans hjson')
  exact h

theorem mem_readUpstreamRoots {nodes : List (Except WorkspaceError PackageNode)}
    {candidates roots : BTreeSet SelectedDependencyRoot}
    (h : readUpstreamRoots m rs nodes candidates = .ok roots) {root : SelectedDependencyRoot} :
    root ∈ roots ↔ root ∈ candidates ∨ ∃ node, .ok node ∈ nodes ∧
      root.originPackagePath = node.path ∧ Declares m node.path (root.name, root.version) := by
  induction nodes generalizing candidates with
  | nil =>
    obtain rfl := Except.ok.inj h
    simp
  | cons node nodes ih =>
    obtain ⟨upstream, hnode, h⟩ := bind_eq_ok.1 h
    obtain ⟨own, hown, hrest⟩ := bind_eq_ok.1 h
    obtain rfl := mapError_eq_ok.1 hnode
    rw [ih hrest, BTreeSet.mem_extend, BTreeSet.mem_toList, mem_readExternalDependencyRoots hown, or_assoc]
    refine or_congr_right ?_
    simp only [List.mem_cons, Except.ok.injEq]
    constructor
    · rintro (⟨hpath, hd⟩ | ⟨node, hnode, h⟩)
      · exact ⟨upstream, .inl rfl, hpath, hd⟩
      · exact ⟨node, .inr hnode, h⟩
    · rintro ⟨node, rfl | hnode, hroot⟩
      · exact .inl hroot
      · exact .inr ⟨node, hnode, hroot⟩

/-- A pattern selects from what the manifests of its origins declare. -/
theorem mem_patternCandidates {rawPattern : String} {pattern : InputPattern}
    {packageJson : PackageJsonExternalDeps} (hjson : m.readPackageJson package.path = .ok packageJson)
    {candidates : BTreeSet SelectedDependencyRoot}
    (h : patternCandidates m rs package pg repoRoot rawPattern
      (collectExternalDependencies rs packageJson) pattern = .ok candidates)
    {root : SelectedDependencyRoot} :
    root ∈ candidates ↔ Origin package pg repoRoot pattern root.originPackagePath ∧
      Declares m root.originPackagePath (root.name, root.version) := by
  have hown : ∀ {path : String}, root.originPackagePath = path ∧
      Declares m path (root.name, root.version) ↔ root.originPackagePath = path ∧
        Declares m root.originPackagePath (root.name, root.version) :=
    and_congr_right fun h => by rw [h]
  cases pattern with
  | SamePackage glob =>
    obtain rfl := Except.ok.inj h
    show _ ↔ root.originPackagePath = package.path ∧ _
    rw [mem_dependencyRootsFromPairs, mem_collectExternalDependencies, ← hown]
    refine and_congr_right fun _ => ⟨fun h => ⟨packageJson, hjson, h⟩, ?_⟩
    rintro ⟨packageJson', hjson', h⟩
    obtain rfl := Except.ok.inj (hjson.symm.trans hjson')
    exact h
  | DirectUpstream glob =>
    cases pg with
    | none => cases h
    | some graph =>
      obtain ⟨nodes, hnodes, h⟩ := bind_eq_ok.1 h
      have hnodes := mapError_eq_ok.1 hnodes
      rw [mem_readUpstreamRoots h]
      constructor
      · rintro (hnot | ⟨node, hnode, hpath, hd⟩)
        · exact absurd hnot (BTreeSet.not_mem_empty _)
        · obtain ⟨node', hnode', heq⟩ := List.mem_map.1 hnode
          obtain rfl := Except.ok.inj heq
          exact ⟨⟨graph, nodes, rfl, hnodes, node', hnode', hpath⟩, hpath ▸ hd⟩
      · rintro ⟨⟨graph', nodes', hgraph, hnodes', node, hnode, hpath⟩, hd⟩
        obtain rfl := Option.some.inj hgraph
        obtain rfl := Except.ok.inj (hnodes.symm.trans hnodes')
        exact .inr ⟨node, List.mem_map_of_mem hnode, hpath, hpath ▸ hd⟩
  | TransitiveUpstream glob =>
    cases pg with
    | none => cases h
    | some graph =>
      obtain ⟨names, hnames, h⟩ := bind_eq_ok.1 h
      have hnames := mapError_eq_ok.1 hnames
      rw [mem_readUpstreamRoots h]
      constructor
      · rintro (hnot | ⟨node, hnode, hpath, hd⟩)
        · exact absurd hnot (BTreeSet.not_mem_empty _)
        · obtain ⟨name, hname, hnode⟩ := List.mem_map.1 hnode
          obtain ⟨hname, hne⟩ := List.mem_filter.1 hname
          exact ⟨⟨graph, names, rfl, hnames, name, rs.mem_permute.1 hname, of_decide_eq_true hne,
            node, hnode, hpath⟩, hpath ▸ hd⟩
      · rintro ⟨⟨graph', names', hgraph, hnames', name, hname, hne, node, hnode, hpath⟩, hd⟩
        obtain rfl := Option.some.inj hgraph
        obtain rfl := Except.ok.inj (hnames.symm.trans hnames')
        refine .inr ⟨node, List.mem_map.2 ⟨name, List.mem_filter.2 ⟨rs.mem_permute.2 hname, ?_⟩, hnode⟩,
          hpath, hpath ▸ hd⟩
        exact decide_eq_true hne
  | Specific packageName glob =>
    obtain ⟨path, hpath, h⟩ := bind_eq_ok.1 h
    rw [mem_readExternalDependencyRoots h, hown]
    refine and_congr_left fun _ => ?_
    rw [Origin]
    unfold specificPackagePath at hpath
    dsimp only at hpath
    by_cases hroot : packageName.isRoot = true
    · rw [if_pos hroot] at hpath ⊢
      rw [Except.ok.inj hpath]
    · rw [if_neg hroot] at hpath ⊢
      cases pg with
      | none => cases hpath
      | some graph =>
        obtain ⟨node, hnode, rfl⟩ := map_eq_ok.1 hpath
        have hnode := mapError_eq_ok.1 hnode
        constructor
        · exact fun h => ⟨graph, node, rfl, hnode, h⟩
        · rintro ⟨graph', node', hgraph, hnode', h⟩
          obtain rfl := Option.some.inj hgraph
          obtain rfl := Except.ok.inj (hnode.symm.trans hnode')
          exact h
  | Root glob =>
    show _ ↔ root.originPackagePath = repoRoot ∧ _
    rw [mem_readExternalDependencyRoots h, hown]

theorem mem_insertMatchingDependencyRoots {selected candidates roots : BTreeSet SelectedDependencyRoot}
    {glob : String} (h : insertMatchingDependencyRoots m selected candidates glob = .ok roots)
    {root : SelectedDependencyRoot} : root ∈ roots ↔ root ∈ selected ∨
      root ∈ candidates ∧ ∃ globset, m.glob glob = .ok globset ∧ globset root.name = true := by
  obtain ⟨globset, hglob, hroots⟩ := bind_eq_ok.1 h
  obtain rfl := Except.ok.inj hroots
  rw [BTreeSet.mem_extend, List.mem_filter, BTreeSet.mem_toList]
  refine or_congr_right (and_congr_right fun _ => ⟨fun h => ⟨globset, hglob, h⟩, ?_⟩)
  rintro ⟨globset', hglob', h⟩
  obtain rfl := Except.ok.inj (hglob.symm.trans hglob')
  exact h

/-- The roots that a filter selects do not depend on any order of iteration. -/
theorem mem_selectDependencyRoots {packageJson : PackageJsonExternalDeps}
    (hjson : m.readPackageJson package.path = .ok packageJson) {patterns : List String}
    {selected roots : BTreeSet SelectedDependencyRoot}
    (h : selectDependencyRoots m rs package pg repoRoot (collectExternalDependencies rs packageJson)
      patterns selected = .ok roots) {root : SelectedDependencyRoot} :
    root ∈ roots ↔ root ∈ selected ∨ Selected m package pg repoRoot patterns root := by
  induction patterns generalizing selected with
  | nil =>
    obtain rfl := Except.ok.inj h
    simp [Selected]
  | cons rawPattern rest ih =>
    obtain ⟨pattern, hpattern, h⟩ := bind_eq_ok.1 h
    obtain ⟨candidates, hcandidates, h⟩ := bind_eq_ok.1 h
    obtain ⟨next, hnext, hrest⟩ := bind_eq_ok.1 h
    rw [ih hrest, mem_insertMatchingDependencyRoots hnext, mem_patternCandidates hjson hcandidates,
      or_assoc]
    refine or_congr_right ?_
    rw [Selected, Selected, List.exists_mem_cons_iff]
    refine or_congr_left ?_
    constructor
    · rintro ⟨⟨horigin, hd⟩, globset, hglob, hmatch⟩
      exact ⟨pattern, globset, hpattern, horigin, hd, hglob, hmatch⟩
    · rintro ⟨pattern', globset, hpattern', horigin, hd, hglob, hmatch⟩
      obtain rfl := Except.ok.inj (hpattern.symm.trans hpattern')
      exact ⟨⟨horigin, hd⟩, globset, hglob, hmatch⟩

/-! ## Gathering -/

/-- The names that are workspace packages for a package: its direct dependencies' and its own. -/
def workspaceNames (package : PackageNode) (pg : Option PackageGraph) : BTreeSet String :=
  BTreeSet.empty.extend
    (((workspaceClosure package pg).toOption.getD []).map fun node => node.name.name)

def workspacePaths (package : PackageNode) (pg : Option PackageGraph) : BTreeSet String :=
  BTreeSet.empty.extend (((workspaceClosure package pg).toOption.getD []).map PackageNode.path)

/-- The edges a filter selects for a package: those of its selected roots that are not skipped. -/
def SelectedEdge (m : Manifests) (package : PackageNode) (pg : Option PackageGraph)
    (repoRoot : String) (patterns : List String) (d : String × String) : Prop :=
  ∃ root, Selected m package pg repoRoot patterns root ∧
    RootEdge (workspaceNames package pg) (workspacePaths package pg) root d

variable {patterns : List String} {pairs : List (String × String)}

/-- The gathered pairs are what the selected edges reach. -/
theorem mem_gather {l : Lockfile} (h : gatherPkgDepPairsFiltered m rs package pg repoRoot (.Parsed l)
      patterns = .ok pairs) {name identity : String} :
    (name, identity) ∈ pairs ↔
      Resolves l (SelectedEdge m package pg repoRoot patterns) name identity := by
  obtain ⟨packageJson, hjson, h⟩ := bind_eq_ok.1 h
  obtain ⟨closure, hclosure, h⟩ := bind_eq_ok.1 h
  obtain ⟨roots, hroots, h⟩ := bind_eq_ok.1 h
  obtain ⟨collected, hcollected, h⟩ := bind_eq_ok.1 h
  obtain rfl := Except.ok.inj h
  obtain ⟨collected', hcollected', hmem⟩ := collectDepPairs_ok l
    (workspaceNames package pg) (workspacePaths package pg) roots.toList .empty
  have hnames : workspaceNames package pg =
      BTreeSet.empty.extend (closure.map fun node => node.name.name) := by
    rw [workspaceNames, hclosure]
    rfl
  have hpaths : workspacePaths package pg = BTreeSet.empty.extend (closure.map PackageNode.path) := by
    rw [workspacePaths, hclosure]
    rfl
  rw [hnames, hpaths] at hcollected' hmem
  obtain rfl := Except.ok.inj (hcollected.symm.trans hcollected')
  have hedges : (fun d => ∃ root ∈ roots.toList, RootEdge (workspaceNames package pg)
      (workspacePaths package pg) root d) = SelectedEdge m package pg repoRoot patterns := by
    funext d
    refine propext (exists_congr fun root => and_congr_left fun _ => ?_)
    rw [BTreeSet.mem_toList, mem_selectDependencyRoots hjson hroots]
    exact or_iff_right (BTreeSet.not_mem_empty _)
  rw [← hedges, hnames, hpaths]
  have hpair : (name, identity) ∈ collected.toList.map ofLex ↔
      toLex (name, identity) ∈ collected.toList := List.mem_map_of_injective ofLex.injective
  rw [hpair, BTreeSet.mem_toList, hmem]
  exact or_iff_right (BTreeSet.not_mem_empty _)

/-- The gathered pairs are listed in order. -/
theorem sorted_gather {state : LockfileState}
    (h : gatherPkgDepPairsFiltered m rs package pg repoRoot state patterns = .ok pairs) :
    pairs.Pairwise fun a b => toLex a < toLex b := by
  cases state with
  | Absent =>
    obtain rfl := Except.ok.inj h
    exact .nil
  | Failed message => cases h
  | Parsed l =>
    obtain ⟨packageJson, hjson, h⟩ := bind_eq_ok.1 h
    obtain ⟨closure, hclosure, h⟩ := bind_eq_ok.1 h
    obtain ⟨roots, hroots, h⟩ := bind_eq_ok.1 h
    obtain ⟨collected, hcollected, h⟩ := bind_eq_ok.1 h
    obtain rfl := Except.ok.inj h
    exact List.pairwise_map.2 collected.sorted_toList

/-- Gathered pairs are determined by what they hold. -/
theorem gather_eq_iff {m' : Manifests} {rs' : RandomState} {package' : PackageNode}
    {pg' : Option PackageGraph} {repoRoot' : String} {patterns' : List String}
    {pairs' : List (String × String)} {state state' : LockfileState}
    (h : gatherPkgDepPairsFiltered m rs package pg repoRoot state patterns = .ok pairs)
    (h' : gatherPkgDepPairsFiltered m' rs' package' pg' repoRoot' state' patterns' = .ok pairs') :
    pairs = pairs' ↔ ∀ p, p ∈ pairs ↔ p ∈ pairs' :=
  ⟨fun heq _ => by rw [heq], eq_of_strictly_sorted (sorted_gather h) (sorted_gather h')⟩

/-! ## Sensitivity -/

variable {rs' : RandomState} {base head : Lockfile} {basePairs headPairs : List (String × String)}

theorem gather_eq_iff_resolves
    (hbase : gatherPkgDepPairsFiltered m rs package pg repoRoot (.Parsed base) patterns = .ok basePairs)
    (hhead : gatherPkgDepPairsFiltered m rs' package pg repoRoot (.Parsed head) patterns =
      .ok headPairs) :
    basePairs = headPairs ↔ ∀ name identity,
      Resolves base (SelectedEdge m package pg repoRoot patterns) name identity ↔
      Resolves head (SelectedEdge m package pg repoRoot patterns) name identity := by
  rw [gather_eq_iff hbase hhead, Prod.forall]
  refine forall_congr' fun name => forall_congr' fun identity => ?_
  rw [mem_gather hbase, mem_gather hhead]

/-- A manifest with these dependencies only. -/
def manifestOf (dependencies : List (String × String)) : PackageJsonExternalDeps :=
  ⟨HashMap.ofList dependencies, ∅, ∅⟩

def entryOf (name range version : String) (dependencies : List (String × String)) : Yarn1RawEntry :=
  ⟨name, version, "", "", dependencies, [(name, range)]⟩

/-- `a` and `b` ask for `foo` with different ranges, which resolve to these versions. -/
def forked (star atLeast : String) : Lockfile :=
  .yarn1 (.ofEntries [entryOf "a" "^1" "1.0.0" [("foo", "*")],
    entryOf "b" "^1" "1.0.0" [("foo", ">=1")],
    entryOf "foo" "*" star [], entryOf "foo" ">=1" atLeast []])

def appNode : PackageNode := ⟨⟨"app"⟩, "/repo/app"⟩

def appGraph : PackageGraph := .ofNodes [appNode] [] none (by decide) (by decide)

def appManifests : Manifests where
  readPackageJson _ := .ok (manifestOf [("a", "^1"), ("b", "^1")])
  glob _ := .ok fun _ => true

def forkedPairs (first second : String) : List (String × String) :=
  [("a", "1.0.0"), ("b", "1.0.0"), ("foo", first), ("foo", second)]

end Luchta.Proof.Deps
