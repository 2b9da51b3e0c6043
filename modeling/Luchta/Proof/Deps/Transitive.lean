import Luchta.Proof.Deps.Closure
import Mathlib.Data.Set.Finite.Basic

/-!
# Transitive dependencies

The closure as the lockfile formats share it, for any format with finitely many entries.

* `EdgeFrom`: the dependency edges on the paths of resolvable edges that start at a key.
* `transitiveDependencies_correct`: the search ends, with the pair of every edge that resolves.
* `readable_backend`: with the formats of the repository, nothing fails at a key that has an entry.
-/

namespace Luchta.Proof.Deps

open Luchta.Framework Luchta.Impl

variable {b : LockfileBackend} {key : String}

/-- The edges of a key, and those of every entry that such an edge resolves to. -/
inductive EdgeFrom (b : LockfileBackend) (key : String) : String × String → Prop
  | direct {deps : BTreeMap String String} {d : String × String}
      (hdeps : b.allDependencies key = .ok deps) (hd : d ∈ deps.entries) : EdgeFrom b key d
  | through {d e : String × String} {package : Package} {deps : BTreeMap String String}
      (h : EdgeFrom b key d) (hresolved : b.resolvePackage "" d.1 d.2 = .ok (some package))
      (hdeps : b.allDependencies package.key = .ok deps) (he : e ∈ deps.entries) : EdgeFrom b key e

/-- No entry on the way from the key fails to be read, and no edge to be looked up. -/
structure ReadableFrom (b : LockfileBackend) (key : String) : Prop where
  start : ∃ deps, b.allDependencies key = .ok deps
  resolve : ∀ d, EdgeFrom b key d → ∃ package, b.resolvePackage "" d.1 d.2 = .ok package
  entry : ∀ d package, EdgeFrom b key d → b.resolvePackage "" d.1 d.2 = .ok (some package) →
    ∃ deps, b.allDependencies package.key = .ok deps

/-- The keys of the packages that anything resolves to. -/
def resolvedKeys (b : LockfileBackend) : Set String :=
  {key | ∃ name version package, b.resolvePackage "" name version = .ok (some package) ∧
    package.key = key}

/-! ## The search -/

/-- What an edge resolves to, and the edges of a key, where reading them does not fail. -/
def targetOf (b : LockfileBackend) (d : String × String) : Option Package :=
  (b.resolvePackage "" d.1 d.2).toOption.join

def edgesOf (b : LockfileBackend) (key : String) : List (String × String) :=
  (b.allDependencies key).toOption.elim [] BTreeMap.entries

theorem targetOf_eq_some {d : String × String} {package : Package} :
    targetOf b d = some package ↔ b.resolvePackage "" d.1 d.2 = .ok (some package) := by
  rw [targetOf, Option.join_eq_some_iff, toOption_eq_some]

theorem mem_edgesOf {d : String × String} :
    d ∈ edgesOf b key ↔ ∃ deps, b.allDependencies key = .ok deps ∧ d ∈ deps.entries := by
  unfold edgesOf
  cases b.allDependencies key with
  | error e => simp [Except.toOption]
  | ok deps => simp [Except.toOption]

theorem edgeFrom_iff {d : String × String} :
    EdgeFrom b key d ↔
      EdgeSearch.Reaches (targetOf b) Package.key (edgesOf b) (· ∈ edgesOf b key) d := by
  constructor
  · intro h
    induction h with
    | direct hdeps hd => exact .seed (mem_edgesOf.2 ⟨_, hdeps, hd⟩)
    | through _ hresolved hdeps he ih =>
      exact ih.step (targetOf_eq_some.2 hresolved) (mem_edgesOf.2 ⟨_, hdeps, he⟩)
  · intro h
    induction h with
    | seed hd =>
      obtain ⟨deps, hdeps, hd⟩ := mem_edgesOf.1 hd
      exact .direct hdeps hd
    | step _ hresolved he ih =>
      obtain ⟨deps, hdeps, he⟩ := mem_edgesOf.1 he
      exact ih.through (targetOf_eq_some.1 hresolved) hdeps he

/-- With finitely many entries the search ends, and the closure has the pair of each edge on a path of
resolvable edges that resolves itself. -/
theorem transitiveDependencies_correct (hfinite : (resolvedKeys b).Finite) (h : ReadableFrom b key) :
    ∃ bound pairs, (∀ fuel, bound ≤ fuel →
        b.transitiveDependencies fuel key = some (.ok pairs)) ∧
      ∀ name identity, toLex (name, identity) ∈ pairs ↔ ∃ range package,
        EdgeFrom b key (name, range) ∧ b.resolvePackage "" name range = .ok (some package) ∧
          package.lockIdentity = identity := by
  obtain ⟨deps, hdeps⟩ := h.start
  have hedges : edgesOf b key = deps.entries := by
    rw [edgesOf, hdeps]
    rfl
  have htarget : ∀ d, EdgeSearch.Reaches (targetOf b) Package.key (edgesOf b) (· ∈ deps.entries) d →
      b.resolvePackage "" d.1 d.2 = .ok (targetOf b d) := by
    intro d hd
    rw [← hedges, ← edgeFrom_iff] at hd
    obtain ⟨package, hpackage⟩ := h.resolve d hd
    rw [targetOf, hpackage]
    rfl
  have hnext : ∀ d package,
      EdgeSearch.Reaches (targetOf b) Package.key (edgesOf b) (· ∈ deps.entries) d →
      targetOf b d = some package → package.key ∈ hfinite.toFinset.toList ∧
        (b.allDependencies package.key).map BTreeMap.entries = .ok (edgesOf b package.key) := by
    intro d package hd hpackage
    rw [← hedges, ← edgeFrom_iff] at hd
    rw [targetOf_eq_some] at hpackage
    obtain ⟨deps, hdeps⟩ := h.entry d package hd hpackage
    refine ⟨?_, by rw [edgesOf, hdeps]; rfl⟩
    rw [Finset.mem_toList, Set.Finite.mem_toFinset]
    exact ⟨d.1, d.2, package, hpackage, rfl⟩
  -- the edges of all entries are fuel enough, and so is more
  have hsearch : ∀ fuel, deps.entries.length +
      (hfinite.toFinset.toList.map fun k => (edgesOf b k).length).sum ≤ fuel →
      ∃ followed : List ((String × String) × Package),
        b.transitiveDependencies fuel key = some (.ok (followed.foldl
          (fun pairs p => pairs.insert (toLex (p.1.1, p.2.lockIdentity))) .empty)) ∧
        ∀ d package, (d, package) ∈ followed ↔
          EdgeFrom b key d ∧ targetOf b d = some package := by
    intro fuel hfuel
    rw [LockfileBackend.transitiveDependencies, hdeps]
    simp only [edgeFrom_iff, hedges]
    exact EdgeSearch.run_ok htarget hnext hfuel _
  have hpairs : ∀ followed : List ((String × String) × Package),
      (∀ d package, (d, package) ∈ followed ↔ EdgeFrom b key d ∧ targetOf b d = some package) →
      ∀ name identity, toLex (name, identity) ∈ followed.foldl
          (fun pairs p => pairs.insert (toLex (p.1.1, p.2.lockIdentity))) BTreeSet.empty ↔
        ∃ range package, EdgeFrom b key (name, range) ∧
          b.resolvePackage "" name range = .ok (some package) ∧ package.lockIdentity = identity := by
    intro followed hmem name identity
    rw [mem_foldl_insert, or_iff_right (BTreeSet.not_mem_empty _)]
    constructor
    · rintro ⟨⟨⟨n, range⟩, package⟩, hp, heq⟩
      obtain ⟨rfl, rfl⟩ := Prod.mk.inj (toLex.injective heq)
      obtain ⟨hedge, hres⟩ := (hmem _ _).1 hp
      exact ⟨range, package, hedge, targetOf_eq_some.1 hres, rfl⟩
    · rintro ⟨range, package, hedge, hres, rfl⟩
      exact ⟨((name, range), package), (hmem _ _).2 ⟨hedge, targetOf_eq_some.2 hres⟩, rfl⟩
  obtain ⟨followed, -, hmem⟩ := hsearch _ (Nat.le_refl _)
  refine ⟨deps.entries.length + (hfinite.toFinset.toList.map fun k => (edgesOf b k).length).sum,
    followed.foldl (fun pairs p => pairs.insert (toLex (p.1.1, p.2.lockIdentity))) .empty,
    fun fuel hfuel => ?_, hpairs followed hmem⟩
  obtain ⟨followed', hrun, hmem'⟩ := hsearch fuel hfuel
  -- what is followed may be listed in another order, the pairs are the same
  have heq : followed'.foldl (fun pairs p => pairs.insert (toLex (p.1.1, p.2.lockIdentity)))
      BTreeSet.empty = followed.foldl
        (fun pairs p => pairs.insert (toLex (p.1.1, p.2.lockIdentity))) .empty :=
    BTreeSet.ext_mem fun q =>
      (hpairs followed' hmem' (ofLex q).1 (ofLex q).2).trans (hpairs followed hmem _ _).symm
  rw [hrun, heq]

/-! ## The formats -/

theorem resolvedKeys_subset (l : Lockfile) : resolvedKeys l.backend ⊆ {key | key ∈ l.keys} := by
  rintro key ⟨name, version, package, hresolved, rfl⟩
  have hresolved : l.resolvePackage "" name version = .ok (some package) := hresolved
  rw [resolvePackage_ok "" (name, version)] at hresolved
  exact key_mem_keys (Except.ok.inj hresolved)

/-- A lockfile has finitely many entries. -/
theorem finite_backend (l : Lockfile) : (resolvedKeys l.backend).Finite :=
  (List.finite_toSet l.keys).subset (resolvedKeys_subset l)

/-- At a key that has an entry nothing fails, whatever the ranges on the way. -/
theorem readable_backend {l : Lockfile} (h : key ∈ l.keys) : ReadableFrom l.backend key where
  start := (allDependencies_ok h).imp fun _ hdeps => hdeps.1
  resolve d _ := ⟨_, resolvePackage_ok "" d⟩
  entry d package _ hresolved :=
    (allDependencies_ok (resolvedKeys_subset l ⟨d.1, d.2, package, hresolved, rfl⟩)).imp
      fun _ hdeps => hdeps.1

/-- `a` and `b` need each other, `b` under two names, and `a` a package that is not in the lockfile. -/
def cyclicLock : Lockfile :=
  .yarn1 (.ofEntries [⟨"a", "1.0.0", "", "", [("b", "^1"), ("gone", "^2")], [("a", "^1")]⟩,
    ⟨"b", "2.0.0", "", "", [("a", "^1"), ("second", "npm:b@^1")],
      [("b", "^1"), ("second", "npm:b@^1")]⟩])

theorem transitiveDependencies_cyclic :
    (∃ bound pairs, (∀ fuel, bound ≤ fuel →
        cyclicLock.backend.transitiveDependencies fuel "a@^1" = some (.ok pairs)) ∧
      ∀ name identity, toLex (name, identity) ∈ pairs ↔ ∃ range package,
        EdgeFrom cyclicLock.backend "a@^1" (name, range) ∧
          cyclicLock.backend.resolvePackage "" name range = .ok (some package) ∧
          package.lockIdentity = identity) ∧
    cyclicLock.backend.transitiveDependencies 8 "a@^1" =
      some (.ok (BTreeSet.empty.extend
        ([("a", "1.0.0"), ("b", "2.0.0"), ("second", "2.0.0")].map toLex))) :=
  ⟨transitiveDependencies_correct (finite_backend _) (readable_backend (by decide)), by decide +kernel⟩

/-- The model of the formats with a bound of its own is the shared operation. -/
theorem transitiveDependencies_backend {l : Lockfile} {r : Except LockfileError (BTreeSet (String ×ₗ String))}
    {deps : BTreeMap String String} (hdeps : l.allDependencies key = .ok deps)
    (h : l.backend.transitiveDependencies
      (deps.entries.length + (l.keys.map fun key => (l.edges key).length).sum) key = some r) :
    l.transitiveDependencies key = r := by
  have hbackend : l.backend.allDependencies key = .ok deps := hdeps
  rw [LockfileBackend.transitiveDependencies, hbackend] at h
  rw [Lockfile.transitiveDependencies, hdeps]
  exact EdgeSearch.follow_of_run h

end Luchta.Proof.Deps
