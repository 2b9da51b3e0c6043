import Luchta.Framework.Fallible
import Luchta.Impl.DependencyPairs

/-!
# Lockfile closures

The closure of a set of dependency edges: every edge that can be reached through the entries the
edges resolve to, as pairs of a name and an identity.

* `transitiveDependencies_ok`: the closure of a key never fails and holds what its edges reach.
* `collectDepPairs_ok`: the pairs of some roots are what the roots that are not skipped reach.
-/

namespace Luchta.Proof.Deps

open Luchta.Framework Luchta.Impl

variable {l : Lockfile}

/-- The entry an edge resolves to, from any workspace package. -/
def resolution (l : Lockfile) (d : String × String) : Option Package :=
  match l with
  | .yarn1 l => l.resolvePackage d.1 d.2
  | .yarnBerry l => l.resolvePackage d.1 d.2

/-- The edges that can be followed from the seeds. -/
def ReachableEdge (l : Lockfile) (seeds : String × String → Prop) (d : String × String) : Prop :=
  EdgeSearch.Reaches (resolution l) Package.key l.edges seeds d

/-- Some edge of this name that can be reached from the seeds resolves to this identity. -/
def Resolves (l : Lockfile) (seeds : String × String → Prop) (name identity : String) : Prop :=
  ∃ range package, ReachableEdge l seeds (name, range) ∧
    resolution l (name, range) = some package ∧ package.lockIdentity = identity

theorem resolvePackage_ok (path : String) (d : String × String) :
    l.resolvePackage path d.1 d.2 = .ok (resolution l d) := by
  cases l <;> rfl

/-- A resolution carries a key of the lockfile. -/
theorem key_mem_keys {d : String × String} {package : Package} (h : resolution l d = some package) :
    package.key ∈ l.keys := by
  cases l with
  | yarn1 l =>
    obtain ⟨entry, hentry, rfl⟩ := Option.map_eq_some_iff.1 h
    exact BTreeMap.mem_keys_iff.2 ⟨entry, hentry⟩
  | yarnBerry l =>
    obtain ⟨key, -, hkey⟩ := List.exists_of_findSome?_eq_some h
    obtain ⟨entry, hentry, rfl⟩ := Option.map_eq_some_iff.1 hkey
    exact BTreeMap.mem_keys_iff.2 ⟨entry, hentry⟩

theorem allDependencies_ok {key : String} (h : key ∈ l.keys) :
    ∃ deps, l.allDependencies key = .ok deps ∧ l.edges key = deps.entries := by
  have hdeps : ∃ deps, l.dependencies key = some deps := by
    cases l with
    | yarn1 l =>
      obtain ⟨entry, hentry⟩ := BTreeMap.mem_keys_iff.1 h
      exact ⟨entry.dependencies, by simp [Lockfile.dependencies, hentry]⟩
    | yarnBerry l =>
      obtain ⟨entry, hentry⟩ := BTreeMap.mem_keys_iff.1 h
      exact ⟨entry.dependencies, by simp [Lockfile.dependencies, hentry]⟩
  obtain ⟨deps, hdeps⟩ := hdeps
  exact ⟨deps, by simp [Lockfile.allDependencies, hdeps], by simp [Lockfile.edges, hdeps]⟩

/-- What is inserted along a list of followed edges. -/
theorem mem_foldl_insert {followed : List ((String × String) × Package)}
    {pairs : BTreeSet (String ×ₗ String)} {q : String ×ₗ String} :
    q ∈ followed.foldl (fun pairs p => pairs.insert (toLex (p.1.1, p.2.lockIdentity))) pairs ↔
      q ∈ pairs ∨ ∃ p ∈ followed, q = toLex (p.1.1, p.2.lockIdentity) := by
  induction followed generalizing pairs with
  | nil => simp
  | cons p followed ih =>
    rw [List.foldl_cons, ih, BTreeSet.mem_insert, List.exists_mem_cons_iff]
    tauto

theorem transitiveDependencies_ok {key : String} (h : key ∈ l.keys) :
    ∃ pairs, l.transitiveDependencies key = .ok pairs ∧
      ∀ name identity, toLex (name, identity) ∈ pairs ↔
        Resolves l (· ∈ l.edges key) name identity := by
  obtain ⟨deps, hdeps, hedges⟩ := allDependencies_ok h
  have hnext : ∀ d package, resolution l d = some package → package.key ∈ l.keys ∧
      (l.allDependencies package.key).map BTreeMap.entries = .ok (l.edges package.key) := by
    intro d package hd
    obtain ⟨deps, hdeps, hedges⟩ := allDependencies_ok (key_mem_keys hd)
    exact ⟨key_mem_keys hd, by rw [hdeps, hedges]; rfl⟩
  have hsearch : ∃ followed : List ((String × String) × Package),
      l.transitiveDependencies key = .ok (followed.foldl
        (fun pairs p => pairs.insert (toLex (p.1.1, p.2.lockIdentity))) .empty) ∧
      ∀ d package, (d, package) ∈ followed ↔
        ReachableEdge l (· ∈ deps.entries) d ∧ resolution l d = some package := by
    rw [Lockfile.transitiveDependencies, hdeps]
    exact EdgeSearch.follow_ok (resolvePackage_ok "") hnext (Nat.le_refl _) _
  obtain ⟨followed, hfollow, hmem⟩ := hsearch
  refine ⟨_, hfollow, fun name identity => ?_⟩
  rw [mem_foldl_insert, hedges]
  constructor
  · rintro (hnot | ⟨⟨⟨n, range⟩, package⟩, hp, heq⟩)
    · exact absurd hnot (BTreeSet.not_mem_empty _)
    · obtain ⟨rfl, rfl⟩ := Prod.mk.inj (toLex.injective heq)
      obtain ⟨hreach, hres⟩ := (hmem _ _).1 hp
      exact ⟨range, package, hreach, hres, rfl⟩
  · rintro ⟨range, package, hreach, hres, rfl⟩
    exact .inr ⟨((name, range), package), (hmem _ _).2 ⟨hreach, hres⟩, rfl⟩

/-! ## Roots -/

theorem Resolves.mono {seeds seeds' : String × String → Prop} (h : ∀ d, seeds d → seeds' d)
    {name identity : String} (hr : Resolves l seeds name identity) :
    Resolves l seeds' name identity := by
  obtain ⟨range, package, hreach, hres, hid⟩ := hr
  exact ⟨range, package, hreach.mono h, hres, hid⟩

/-- What the seeds reach, each seed at a time: its own resolution, and the closure of it. -/
theorem resolves_iff {seeds : String × String → Prop} {name identity : String} :
    Resolves l seeds name identity ↔ ∃ d package, seeds d ∧ resolution l d = some package ∧
      (d.1 = name ∧ package.lockIdentity = identity ∨
        Resolves l (· ∈ l.edges package.key) name identity) := by
  constructor
  · rintro ⟨range, package, hreach, hres, rfl⟩
    rcases EdgeSearch.reaches_iff.1 hreach with hd | ⟨s, t, hs, hst, hreach⟩
    · exact ⟨_, package, hd, hres, .inl ⟨rfl, rfl⟩⟩
    · exact ⟨s, t, hs, hst, .inr ⟨range, package, hreach, hres, rfl⟩⟩
  · rintro ⟨⟨n, range⟩, package, hd, hres, ⟨rfl, rfl⟩ | ⟨range', package', hreach, hres', rfl⟩⟩
    · exact ⟨range, package, .seed hd, hres, rfl⟩
    · exact ⟨range', package', EdgeSearch.reaches_iff.2 (.inr ⟨_, _, hd, hres, hreach⟩), hres', rfl⟩

theorem resolves_or {p q : String × String → Prop} {name identity : String} :
    Resolves l (fun d => p d ∨ q d) name identity ↔
      Resolves l p name identity ∨ Resolves l q name identity := by
  constructor
  · intro h
    obtain ⟨d, package, hd | hd, hrest⟩ := resolves_iff.1 h
    · exact .inl (resolves_iff.2 ⟨d, package, hd, hrest⟩)
    · exact .inr (resolves_iff.2 ⟨d, package, hd, hrest⟩)
  · exact fun h => h.elim (.mono fun _ => .inl) (.mono fun _ => .inr)

theorem resolves_exists {ι : Type*} {p : ι → String × String → Prop} {name identity : String} :
    Resolves l (fun d => ∃ i, p i d) name identity ↔ ∃ i, Resolves l (p i) name identity := by
  constructor
  · intro h
    obtain ⟨d, package, ⟨i, hd⟩, hrest⟩ := resolves_iff.1 h
    exact ⟨i, resolves_iff.2 ⟨d, package, hd, hrest⟩⟩
  · rintro ⟨i, h⟩
    exact h.mono fun d hd => ⟨i, hd⟩

/-- The edge of a root, unless its declaration is skipped. -/
def RootEdge (workspaceNames workspacePaths : BTreeSet String) (root : SelectedDependencyRoot)
    (d : String × String) : Prop :=
  d = (root.name, root.version) ∧
    shouldSkipDependencySpec root.name root.version workspaceNames workspacePaths = false

variable (l) (workspaceNames workspacePaths : BTreeSet String)

theorem collectDepPairsForPackage_ok (root : SelectedDependencyRoot)
    (pairs : BTreeSet (String ×ₗ String)) :
    ∃ pairs', collectDepPairsForPackage l workspaceNames workspacePaths root pairs = .ok pairs' ∧
      ∀ name identity, toLex (name, identity) ∈ pairs' ↔ toLex (name, identity) ∈ pairs ∨
        Resolves l (RootEdge workspaceNames workspacePaths root) name identity := by
  rw [collectDepPairsForPackage, resolvePackage_ok root.originPackagePath (root.name, root.version)]
  split
  · rename_i hskip
    refine ⟨pairs, rfl, fun name identity => (or_iff_left fun hr => ?_).symm⟩
    obtain ⟨d, -, ⟨-, hd⟩, -⟩ := resolves_iff.1 hr
    rw [hskip] at hd
    contradiction
  · rename_i hskip
    have hskip := Bool.eq_false_iff.2 hskip
    cases hres : resolution l (root.name, root.version) with
    | none =>
      refine ⟨pairs, rfl, fun name identity => (or_iff_left fun hr => ?_).symm⟩
      obtain ⟨d, package, ⟨rfl, -⟩, hd, -⟩ := resolves_iff.1 hr
      rw [hres] at hd
      contradiction
    | some package =>
      obtain ⟨deps, hdeps, hmem⟩ := transitiveDependencies_ok (key_mem_keys hres)
      refine ⟨(pairs.insert (toLex (root.name, package.lockIdentity))).extend deps.toList,
        by simp only [hdeps], fun name identity => ?_⟩
      have hroot : Resolves l (RootEdge workspaceNames workspacePaths root) name identity ↔
          root.name = name ∧ package.lockIdentity = identity ∨
            Resolves l (· ∈ l.edges package.key) name identity := by
        rw [resolves_iff]
        constructor
        · rintro ⟨d, package', ⟨rfl, -⟩, hd, h⟩
          obtain rfl := Option.some.inj (hres.symm.trans hd)
          exact h
        · exact fun h => ⟨_, package, ⟨rfl, hskip⟩, hres, h⟩
      rw [BTreeSet.mem_extend, BTreeSet.mem_insert, BTreeSet.mem_toList, hmem, hroot]
      have heq : toLex (name, identity) = toLex (root.name, package.lockIdentity) ↔
          root.name = name ∧ package.lockIdentity = identity := by
        rw [toLex_inj, Prod.mk.injEq, eq_comm, @eq_comm _ identity]
      rw [heq]
      tauto

/-- Together the roots contribute what any of them reaches. -/
theorem collectDepPairs_ok (roots : List SelectedDependencyRoot)
    (pairs : BTreeSet (String ×ₗ String)) :
    ∃ pairs', collectDepPairs l workspaceNames workspacePaths roots pairs = .ok pairs' ∧
      ∀ name identity, toLex (name, identity) ∈ pairs' ↔ toLex (name, identity) ∈ pairs ∨
        Resolves l (fun d => ∃ root ∈ roots, RootEdge workspaceNames workspacePaths root d)
          name identity := by
  induction roots generalizing pairs with
  | nil =>
    refine ⟨pairs, rfl, fun name identity => (or_iff_left fun hr => ?_).symm⟩
    obtain ⟨d, -, ⟨root, hroot, -⟩, -⟩ := resolves_iff.1 hr
    exact List.not_mem_nil hroot
  | cons root roots ih =>
    obtain ⟨first, hfirst, hmem⟩ := collectDepPairsForPackage_ok l workspaceNames workspacePaths root pairs
    obtain ⟨rest, hrest, hmem'⟩ := ih first
    refine ⟨rest, bind_eq_ok.2 ⟨first, hfirst, hrest⟩, fun name identity => ?_⟩
    have hcons : (fun d => ∃ r ∈ root :: roots, RootEdge workspaceNames workspacePaths r d) =
        fun d => RootEdge workspaceNames workspacePaths root d ∨
          ∃ r ∈ roots, RootEdge workspaceNames workspacePaths r d := by
      funext d
      rw [List.exists_mem_cons_iff]
    rw [hmem', hmem, or_assoc, hcons, resolves_or]

end Luchta.Proof.Deps
