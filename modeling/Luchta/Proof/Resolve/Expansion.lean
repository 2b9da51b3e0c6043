import Luchta.Proof.Resolve.Caches
import Mathlib.Data.List.TakeWhile

/-!
# Accepted requests

What the expansion has checked of each request that it emits, and what a listing offers.

* `expandInputPatterns_validated`: no request but a negation went unchecked.
* `Validated.normalForm`: base directories are normalised.
* `list_files`, `listedNow_files`: a listing consists of files that the walk came across.
-/

namespace Luchta.Proof.Resolve

open Luchta.Framework Luchta.Impl

structure Validated (repoRoot : Path) (r : ResolveRequest) : Prop where
  baseDir : r.baseDir = repoRoot ∨ ∃ path : String, r.baseDir = .ofStr path
  inside : (r.baseDir.join (.ofStr (extractLiteralPrefix r.pattern))).lexicalNormalize.startsWith
    r.baseDir = true
  literal : r.semantics = .Literal → classifyPattern r.pattern = .Literal

theorem validatePath_eq_ok {baseDir : Path} {pattern original : String} {sourcePkg : PackageName} :
    validatePath baseDir pattern sourcePkg original = .ok () ↔
      (baseDir.join (.ofStr (extractLiteralPrefix pattern))).lexicalNormalize.startsWith baseDir =
        true := by
  unfold validatePath
  split
  · exact iff_of_true rfl ‹_›
  · exact iff_of_false (fun h => by cases h) ‹_›

theorem packageDir_ofStr {ts : Toposort PackageNode} {graph : PackageGraph} {name : PackageName}
    {pattern : String} {dir : Path} (h : packageDir ts graph name pattern = .ok dir) :
    ∃ path : String, dir = .ofStr path := by
  unfold packageDir at h
  split at h
  · contradiction
  · split at h
    · contradiction
    · split at h
      · rename_i node _
        exact ⟨node.path, (Except.ok.inj h).symm⟩
      · contradiction

section Expansion

variable {ts : Toposort PackageNode} {ctx : ExpansionCtx}

theorem resolveRequest_validated {package : PackageName} {path original : String}
    {semantics : InputSemantics} {r : ResolveRequest}
    (hsem : semantics = .Literal → classifyPattern path = .Literal)
    (h : ctx.resolveRequest ts package path original semantics = .ok r) :
    Validated ctx.repoRoot r := by
  obtain ⟨baseDir, hdir, h⟩ := bind_eq_ok.1 h
  obtain ⟨⟨⟩, hvalid, h⟩ := bind_eq_ok.1 h
  obtain rfl := Except.ok.inj h
  refine ⟨?_, validatePath_eq_ok.1 hvalid, hsem⟩
  split at hdir
  · exact .inl (Except.ok.inj hdir).symm
  · exact .inr (packageDir_ofStr hdir)

theorem resolveRequests_validated {path original : String} {semantics : InputSemantics}
    (hsem : semantics = .Literal → classifyPattern path = .Literal) {packages : List PackageName}
    {rs : List ResolveRequest}
    (h : ctx.resolveRequests ts path original semantics packages = .ok rs) :
    ∀ r ∈ rs, Validated ctx.repoRoot r := by
  induction packages generalizing rs with
  | nil =>
    obtain rfl := Except.ok.inj h
    simp
  | cons package packages ih =>
    obtain ⟨r, hr, h⟩ := bind_eq_ok.1 h
    obtain ⟨rest, hrest, h⟩ := bind_eq_ok.1 h
    obtain rfl := Except.ok.inj h
    exact List.forall_mem_cons.2 ⟨resolveRequest_validated hsem hr, ih hrest⟩

theorem buildRequestsForPattern_validated {parsed : InputPattern} {original : String}
    {rs : List ResolveRequest} (h : buildRequestsForPattern ts ctx parsed original = .ok rs) :
    ∀ r ∈ rs, Validated ctx.repoRoot r := by
  cases parsed with
  | Root path => exact resolveRequests_validated (fun h => h) h
  | Specific package path => exact resolveRequests_validated (fun h => h) h
  | SamePackage path => exact resolveRequests_validated (fun h => h) h
  | DirectUpstream path => exact resolveRequests_validated (fun h => by cases h) h
  | TransitiveUpstream path => exact resolveRequests_validated (fun h => by cases h) h

theorem expandPattern_validated {pattern : String} {rs : List ResolveRequest}
    (h : expandPattern ts ctx pattern = .ok rs) :
    ∀ r ∈ rs, r.negated = false → Validated ctx.repoRoot r := by
  unfold expandPattern at h
  split at h
  · obtain rfl := Except.ok.inj h
    simp
  · obtain ⟨parsed, -, h⟩ := bind_eq_ok.1 h
    exact fun r hr _ => buildRequestsForPattern_validated h r hr

theorem expandPatterns_validated {patterns : List String} {rs : List ResolveRequest}
    (h : expandPatterns ts ctx patterns = .ok rs) :
    ∀ r ∈ rs, r.negated = false → Validated ctx.repoRoot r := by
  induction patterns generalizing rs with
  | nil =>
    obtain rfl := Except.ok.inj h
    simp
  | cons pattern patterns ih =>
    obtain ⟨rs', hrs', h⟩ := bind_eq_ok.1 h
    obtain ⟨rest, hrest, h⟩ := bind_eq_ok.1 h
    obtain rfl := Except.ok.inj h
    exact List.forall_mem_append.2 ⟨expandPattern_validated hrs', ih hrest⟩

/-- No request but a negation went unchecked. -/
theorem expandInputPatterns_validated {rs : RandomState} {patterns : List String}
    {sourcePkg : PackageName} {graph : PackageGraph} {repoRoot : Path}
    {requests : List ResolveRequest}
    (h : expandInputPatterns ts rs patterns sourcePkg graph repoRoot = .ok requests) :
    ∀ r ∈ includes requests, Validated repoRoot r := by
  obtain ⟨⟨direct, transitive⟩, -, h⟩ := bind_eq_ok.1 h
  intro r hr
  obtain ⟨hmem, hneg⟩ := List.mem_filter.1 hr
  exact expandPatterns_validated h r hmem (by simpa using hneg)

end Expansion

/-! ## What was checked -/

theorem Validated.normalForm {repoRoot : Path} {r : ResolveRequest} (h : Validated repoRoot r) :
    NormalForm r.baseDir.components :=
  (lexicalNormalize_normalForm _).initial (List.isPrefixOf_iff_prefix.1 h.inside)

/-- Nothing is cut off a literal. -/
theorem extractLiteralPrefix_of_literal {pattern : String} (h : classifyPattern pattern = .Literal) :
    extractLiteralPrefix pattern = pattern := by
  have hany : pattern.toList.any (· ∈ GLOB_CHARS) = false := by
    by_contra hne
    rw [classifyPattern, if_pos (Bool.eq_true_of_not_eq_false hne)] at h
    contradiction
  have htake : pattern.toList.takeWhile (· ∉ GLOB_CHARS) = pattern.toList :=
    List.takeWhile_eq_self_iff.2 fun c hc => by simpa using List.any_eq_false.1 hany c hc
  rw [extractLiteralPrefix, htake, String.ofList_toList]

/-! ## Listings -/

theorem stripBaseDir_eq_ok {path base relative : Path} :
    stripBaseDir path base = .ok relative ↔ path.stripPrefix base = some relative := by
  unfold stripBaseDir
  split
  · rename_i heq
    rw [heq, Except.ok.injEq, Option.some.injEq]
  · rename_i heq
    simp [heq]

/-- An entry below the base directory, seen from the worktree root and back. -/
theorem stripPrefix_entry {root basePrefix baseDir relative : Path} {names : List FileName}
    (hbase : baseDir.stripPrefix root = some basePrefix)
    (h : (baseDir.join (.ofNames names)).stripPrefix root = some relative) :
    relative.stripPrefix basePrefix = some (.ofNames names) := by
  have hrel : (Path.ofNames names).IsRelative := ⟨names.map FileName.name, by
    rw [Path.ofNames, List.map_map]
    rfl⟩
  rw [Path.stripPrefix_eq_some_iff] at hbase h ⊢
  rw [hrel.join_components, hbase, List.append_assoc, List.append_cancel_left_eq] at h
  exact h.symm

theorem skip_paths (s : WalkState) (path : Path) (fileType : FileType) :
    (s.skip path fileType).paths = s.paths := by
  unfold WalkState.skip
  split <;> rfl

theorem listStep_paths {repo : Repo} {root basePrefix baseDir : Path} {s s' : WalkState}
    {entry : WalkEntry} (hbase : baseDir.stripPrefix root = some basePrefix)
    (h : listStep repo root basePrefix baseDir s entry = .ok s') :
    s'.paths = s.paths ∨
      entry.fileType = .ok .file ∧ s'.paths = s.paths.insert (.ofNames entry.names) := by
  dsimp only [listStep] at h
  split at h
  · obtain rfl := Except.ok.inj h
    exact .inl rfl
  obtain ⟨fileType, htype, h⟩ := bind_eq_ok.1 h
  split at h
  · obtain rfl := Except.ok.inj h
    exact .inl (skip_paths _ _ _)
  obtain ⟨relative, hrelative, h⟩ := bind_eq_ok.1 h
  obtain ⟨ignored, -, h⟩ := bind_eq_ok.1 h
  split at h
  · obtain rfl := Except.ok.inj h
    exact .inl (skip_paths _ _ _)
  obtain rfl := Except.ok.inj h
  have hentry := stripPrefix_entry hbase (stripBaseDir_eq_ok.1 hrelative)
  unfold WalkState.offer
  by_cases hfile : fileType = .file
  · rw [if_neg (not_not.2 hfile), hentry]
    exact .inr ⟨hfile ▸ htype, rfl⟩
  · rw [if_pos hfile]
    exact .inl rfl

/-- A listing consists of files that the walk came across. -/
theorem list_files {disk : Disk} {root basePrefix baseDir : Path} {candidates : List Path}
    (hbase : baseDir.stripPrefix root = some basePrefix)
    (h : disk.list root basePrefix baseDir = .ok candidates) :
    ∀ c ∈ candidates, ∃ entry ∈ disk.walk baseDir,
      entry.fileType = .ok .file ∧ c = .ofNames entry.names := by
  obtain ⟨repo, -, h⟩ := bind_eq_ok.1 h
  obtain ⟨s, hs, h⟩ := bind_eq_ok.1 h
  obtain rfl := Except.ok.inj h
  intro c hc
  refine foldlM_inv (P := fun s => ∀ c ∈ s.paths, ∃ entry ∈ disk.walk baseDir,
    entry.fileType = .ok .file ∧ c = .ofNames entry.names) ?_ (by simp) hs c hc
  intro entry hentry s s' ih hstep c hc
  rcases listStep_paths hbase hstep with heq | ⟨hfile, heq⟩
  · exact ih c (heq ▸ hc)
  · rw [heq, BTreeSet.mem_insert] at hc
    rcases hc with rfl | hc
    · exact ⟨entry, hentry, hfile, rfl⟩
    · exact ih c hc

theorem listedNow_files {disk : Disk} {listing : Option ListingCache} {baseDir : Path}
    {candidates : List Path} (h : listedNow disk listing baseDir = .ok candidates) :
    ∀ c ∈ candidates, ∃ names, c = .ofNames names := by
  obtain ⟨basePrefix, hfront, h⟩ := bind_eq_ok.1 h
  obtain ⟨root, hroot, h⟩ := bind_eq_ok.1 h
  obtain ⟨root', hroot', hfront⟩ := bind_eq_ok.1 hfront
  obtain rfl := Except.ok.inj (hroot.symm.trans hroot')
  intro c hc
  obtain ⟨entry, -, -, rfl⟩ := list_files (stripBaseDir_eq_ok.1 hfront) h c hc
  exact ⟨entry.names, rfl⟩

end Luchta.Proof.Resolve
