import Luchta.Proof.Resolve.Matcher

/-!
# Expansion under two seeds

The transitive upstreams of a package are iterated in the order of a hash set. What is expanded and
compiled under two seeds differs in the order of its requests only.

* `expandInputPatterns_seed`: the same requests, with their negations in the same order.
* `compile_same`: matchers that match the same paths.
-/

namespace Luchta.Proof.Resolve

open Luchta.Framework Luchta.Impl

/-! ## Requests -/

/-- The same requests in any order, with their negations in the same order. -/
structure SameRequests (l l' : List ResolveRequest) : Prop where
  mem : ∀ r, r ∈ l ↔ r ∈ l'
  negated : negations l = negations l'

theorem SameRequests.refl (l : List ResolveRequest) : SameRequests l l := ⟨fun _ => Iff.rfl, rfl⟩

theorem negations_append (l l' : List ResolveRequest) :
    negations (l ++ l') = negations l ++ negations l' := by
  rw [negations, List.filter_append, List.map_append]
  rfl

theorem SameRequests.append {l₁ l₂ l₁' l₂' : List ResolveRequest} (h₁ : SameRequests l₁ l₁')
    (h₂ : SameRequests l₂ l₂') : SameRequests (l₁ ++ l₂) (l₁' ++ l₂') where
  mem r := by rw [List.mem_append, List.mem_append, h₁.mem, h₂.mem]
  negated := by rw [negations_append, negations_append, h₁.negated, h₂.negated]

section Expansion

variable {ts : Toposort PackageNode} {ctx : ExpansionCtx}

theorem resolveRequests_eq_mapM (path original : String) (semantics : InputSemantics)
    (packages : List PackageName) : ctx.resolveRequests ts path original semantics packages =
      packages.mapM fun p => ctx.resolveRequest ts p path original semantics := by
  induction packages with
  | nil => rfl
  | cons p packages ih =>
    rw [List.mapM_cons, ExpansionCtx.resolveRequests, ih]

theorem resolveRequest_negated {package : PackageName} {path original : String}
    {semantics : InputSemantics} {r : ResolveRequest}
    (h : ctx.resolveRequest ts package path original semantics = .ok r) : r.negated = false := by
  obtain ⟨_, -, h⟩ := bind_eq_ok.1 h
  obtain ⟨_, -, h⟩ := bind_eq_ok.1 h
  obtain rfl := Except.ok.inj h
  rfl

theorem negations_resolveRequests {path original : String} {semantics : InputSemantics}
    {packages : List PackageName} {requests : List ResolveRequest}
    (h : ctx.resolveRequests ts path original semantics packages = .ok requests) :
    negations requests = [] := by
  rw [resolveRequests_eq_mapM] at h
  unfold negations
  rw [List.map_eq_nil_iff, List.filter_eq_nil_iff]
  intro r hr
  obtain ⟨p, -, hp⟩ := (mem_mapM h).1 hr
  rw [resolveRequest_negated hp]
  decide

/-- The packages of a request in another order, in a context that resolves each of them alike. -/
theorem resolveRequests_perm {ctx' : ExpansionCtx} {path original : String}
    {semantics : InputSemantics} {packages packages' : List PackageName}
    (hperm : packages.Perm packages') {requests : List ResolveRequest}
    (h : ctx.resolveRequests ts path original semantics packages = .ok requests)
    (hctx : ∀ p, ctx'.resolveRequest ts p path original semantics =
      ctx.resolveRequest ts p path original semantics) :
    ∃ requests', ctx'.resolveRequests ts path original semantics packages' = .ok requests' ∧
      SameRequests requests requests' := by
  have hmap := h
  rw [resolveRequests_eq_mapM] at hmap
  obtain ⟨requests', hmap'⟩ : ∃ requests', packages'.mapM (fun p =>
      ctx.resolveRequest ts p path original semantics) = .ok requests' :=
    exists_mapM fun p hp => exists_of_mapM hmap (hperm.mem_iff.2 hp)
  have h' : ctx'.resolveRequests ts path original semantics packages' = .ok requests' := by
    rw [resolveRequests_eq_mapM, ← hmap']
    exact congrArg (packages'.mapM ·) (funext hctx)
  refine ⟨requests', h', fun r => ?_, ?_⟩
  · rw [mem_mapM hmap, mem_mapM hmap']
    simp only [hperm.mem_iff]
  · rw [negations_resolveRequests h, negations_resolveRequests h']

/-- Another listing of the transitive upstreams. -/
theorem expandPattern_perm {transitive : List PackageName}
    (hperm : ctx.transitiveUpstreams.Perm transitive) {pattern : String}
    {requests : List ResolveRequest} (h : expandPattern ts ctx pattern = .ok requests) :
    ∃ requests', expandPattern ts { ctx with transitiveUpstreams := transitive } pattern =
      .ok requests' ∧ SameRequests requests requests' := by
  unfold expandPattern at h ⊢
  split at h
  · exact ⟨_, rfl, Except.ok.inj h ▸ .refl _⟩
  · obtain ⟨parsed, hparsed, h⟩ := bind_eq_ok.1 h
    rw [hparsed]
    cases parsed with
    | Root path => exact resolveRequests_perm (.refl _) h fun _ => rfl
    | Specific package path => exact resolveRequests_perm (.refl _) h fun _ => rfl
    | DirectUpstream path => exact resolveRequests_perm (.refl _) h fun _ => rfl
    | TransitiveUpstream path => exact resolveRequests_perm hperm h fun _ => rfl
    | SamePackage path => exact resolveRequests_perm (.refl _) h fun _ => rfl

theorem expandPatterns_perm {transitive : List PackageName}
    (hperm : ctx.transitiveUpstreams.Perm transitive) {patterns : List String}
    {requests : List ResolveRequest} (h : expandPatterns ts ctx patterns = .ok requests) :
    ∃ requests', expandPatterns ts { ctx with transitiveUpstreams := transitive } patterns =
      .ok requests' ∧ SameRequests requests requests' := by
  induction patterns generalizing requests with
  | nil => exact ⟨requests, h, .refl _⟩
  | cons pattern patterns ih =>
    obtain ⟨first, hfirst, h⟩ := bind_eq_ok.1 h
    obtain ⟨rest, hrest, h⟩ := bind_eq_ok.1 h
    obtain rfl := Except.ok.inj h
    obtain ⟨first', hfirst', hsame⟩ := expandPattern_perm hperm hfirst
    obtain ⟨rest', hrest', hsame'⟩ := ih hrest
    refine ⟨first' ++ rest', ?_, hsame.append hsame'⟩
    rw [expandPatterns, hfirst', hrest']
    rfl

end Expansion

theorem expandInputPatterns_seed {ts : Toposort PackageNode} {rs rs' : RandomState}
    {patterns : List String} {package : PackageName} {graph : PackageGraph} {root : Path}
    {requests : List ResolveRequest}
    (h : expandInputPatterns ts rs patterns package graph root = .ok requests) :
    ∃ requests', expandInputPatterns ts rs' patterns package graph root = .ok requests' ∧
      SameRequests requests requests' := by
  obtain ⟨⟨direct, transitive⟩, hup, h⟩ := bind_eq_ok.1 h
  obtain ⟨transitive', hup', hperm⟩ : ∃ transitive', upstreams rs' package graph =
      .ok (direct, transitive') ∧ transitive.Perm transitive' := by
    unfold upstreams at hup ⊢
    dsimp only at hup ⊢
    generalize (if package.isRoot then graph.rootPackage.getD package else package) = source at hup ⊢
    by_cases hroot : (package.isRoot && source.isRoot) = true
    · rw [if_pos hroot] at hup ⊢
      obtain ⟨rfl, rfl⟩ := Prod.mk.inj (Except.ok.inj hup)
      exact ⟨[], rfl, .refl _⟩
    · rw [if_neg hroot] at hup ⊢
      obtain ⟨direct', hdirect, hup⟩ := bind_eq_ok.1 hup
      obtain ⟨l, hl, hup⟩ := bind_eq_ok.1 hup
      obtain ⟨rfl, rfl⟩ := Prod.mk.inj (Except.ok.inj hup)
      rw [hdirect, hl]
      exact ⟨rs'.permute l, rfl, (rs.perm l).trans (rs'.perm l).symm⟩
  obtain ⟨requests', hrequests', hsame⟩ := expandPatterns_perm hperm h
  refine ⟨requests', ?_, hsame⟩
  rw [expandInputPatterns, hup']
  exact hrequests'

/-! ## Compiled requests -/

/-- Matchers that no visit can tell apart. -/
structure SameMatcher (m m' : PathRequestMatcher) : Prop where
  includes : m.hasIncludes = m'.hasIncludes
  paths : ∀ p, m.matchesPath p = m'.matchesPath p

theorem hasIncludes_iff {globs : GlobLibrary} {requests : List ResolveRequest}
    {m : PathRequestMatcher} (h : PathRequestMatcher.compile globs requests = .ok m) :
    m.hasIncludes = true ↔ ∃ r, r ∈ includes requests := by
  obtain ⟨exclusions, -, h⟩ := bind_eq_ok.1 h
  obtain ⟨compiled, hcompiled, h⟩ := bind_eq_ok.1 h
  obtain rfl := Except.ok.inj h
  show (!compiled.isEmpty) = true ↔ _
  rw [Bool.not_eq_true', List.isEmpty_eq_false_iff_exists_mem]
  constructor
  · intro hex
    obtain ⟨c, hc⟩ := hex
    obtain ⟨r, hr, -⟩ := (mem_mapM hcompiled).1 hc
    exact ⟨r, hr⟩
  · intro hex
    obtain ⟨r, hr⟩ := hex
    obtain ⟨c, hc⟩ := exists_of_mapM hcompiled hr
    exact ⟨c, (mem_mapM hcompiled).2 ⟨r, hr, hc⟩⟩

theorem compile_same {globs : GlobLibrary} {requests requests' : List ResolveRequest}
    (hsame : SameRequests requests requests') {m : PathRequestMatcher}
    (h : PathRequestMatcher.compile globs requests = .ok m) :
    ∃ m', PathRequestMatcher.compile globs requests' = .ok m' ∧ SameMatcher m m' := by
  have hincludes : ∀ r, r ∈ includes requests ↔ r ∈ includes requests' := fun r => by
    rw [includes, includes, List.mem_filter, List.mem_filter, hsame.mem]
  obtain ⟨exclusions, hexcl, h'⟩ := bind_eq_ok.1 h
  obtain ⟨compiled, hcompiled, h'⟩ := bind_eq_ok.1 h'
  obtain ⟨compiled', hcompiled'⟩ := exists_mapM (l := includes requests') fun r hr =>
    exists_of_mapM hcompiled ((hincludes r).2 hr)
  have hm' : PathRequestMatcher.compile globs requests' = .ok ⟨compiled', exclusions⟩ := by
    rw [PathRequestMatcher.compile, ← hsame.negated, hexcl, hcompiled']
    rfl
  have hm : m.exclusions = exclusions := by rw [← Except.ok.inj h']
  refine ⟨_, hm', ?_, fun p => ?_⟩
  · rw [Bool.eq_iff_iff, hasIncludes_iff h, hasIncludes_iff hm']
    simp only [hincludes]
  · rw [Bool.eq_iff_iff, matchesPath_iff_accepts h, matchesPath_iff_accepts hm', hm]
    simp only [hincludes]

theorem hasIncludes_of_matchesPath {m : PathRequestMatcher} {p : Path}
    (h : m.matchesPath p = true) : m.hasIncludes = true := by
  obtain ⟨c, hc, -⟩ := List.any_eq_true.1 h
  unfold PathRequestMatcher.hasIncludes
  rw [Bool.not_eq_true', List.isEmpty_eq_false_iff_exists_mem]
  exact ⟨c, hc⟩

end Luchta.Proof.Resolve
