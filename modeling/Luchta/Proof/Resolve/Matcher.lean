import Luchta.Proof.Resolve.Entries

/-!
# The matcher and the resolver

`PathRequestMatcher` tests a path by its text, the resolver lists directories and looks up literals.
Where literals are spelled plainly, both select the same paths, but for paths that a glob accepts and
the listing of its base directory does not offer.

* `matchesPath_iff_accepts`: what the matcher accepts, request by request.
* `entries_iff_accepts`: what one request of the resolver yields.
* `matchesPath_iff_entry`: the two together.
-/

namespace Luchta.Proof.Resolve

open Luchta.Framework Luchta.Impl

/-- All base directories belong to one worktree. -/
structure OneWorktree (disk : Disk) (requests : List ResolveRequest) (root : Path) : Prop where
  absolute : root.isAbsolute = true
  discover : ∀ r ∈ includes requests, disk.discover r.baseDir = .ok root

/-- Without its escapes the literal is a sequence of names with single slashes between them. -/
def PlainLiteral (r : ResolveRequest) : Prop :=
  ∃ names, NoBackslash (Path.ofNames names).components ∧
    unescapeLiteral r.pattern = (Path.ofNames names).toStr

/-- No base directory and no listed file has a backslash in its name. -/
structure SlashesOnly (disk : Disk) (requests : List ResolveRequest) : Prop where
  bases : ∀ r ∈ includes requests, NoBackslash r.baseDir.components
  listed : ∀ r ∈ includes requests, ∀ candidates, listedNow disk none r.baseDir = .ok candidates →
    ∀ c ∈ candidates, NoBackslash c.components

/-- The listing of the base directory offers the path. -/
def Listed (disk : Disk) (baseDir relative : Path) : Prop :=
  ∃ candidates, listedNow disk none baseDir = .ok candidates ∧ relative ∈ candidates

/-- A request accepts a path below its base directory that no negation excludes. -/
def Accepts (globs : GlobLibrary) (exclusions : Exclusions) (r : ResolveRequest) (relative : Path) :
    Prop :=
  exclusions.excludes relative.toStr = false ∧
    ∃ compiled, CompiledInclude.compile globs r = .ok compiled ∧ compiled.accepts relative = true

/-- A glob accepts the path, and the listing of its base directory does not offer it. -/
def UnlistedMatch (disk : Disk) (globs : GlobLibrary) (exclusions : Exclusions)
    (requests : List ResolveRequest) (p : Path) : Prop :=
  ∃ r ∈ includes requests, r.semantics = .Wildcard ∧ ∃ relative,
    p.stripPrefix r.baseDir = some relative ∧ Accepts globs exclusions r relative ∧
      ¬ Listed disk r.baseDir relative

variable {disk : Disk} {globs : GlobLibrary} {requests : List ResolveRequest}

/-! ## The matcher -/

theorem compile_baseDir {r : ResolveRequest} {compiled : CompiledInclude}
    (h : CompiledInclude.compile globs r = .ok compiled) : compiled.baseDir = r.baseDir := by
  unfold CompiledInclude.compile at h
  split at h
  · obtain rfl := Except.ok.inj h
    rfl
  · obtain ⟨m, -, rfl⟩ := map_eq_ok.1 h
    rfl

theorem matchesPath_iff_accepts {matcher : PathRequestMatcher}
    (h : PathRequestMatcher.compile globs requests = .ok matcher) {p : Path} :
    matcher.matchesPath p = true ↔ ∃ r ∈ includes requests, ∃ relative,
      p.stripPrefix r.baseDir = some relative ∧ Accepts globs matcher.exclusions r relative := by
  obtain ⟨exclusions, -, h⟩ := bind_eq_ok.1 h
  obtain ⟨compiled, hcompiled, h⟩ := bind_eq_ok.1 h
  obtain rfl := Except.ok.inj h
  show (compiled.any _) = true ↔ _
  rw [List.any_eq_true]
  constructor
  · rintro ⟨c, hc, haccepts⟩
    obtain ⟨r, hr, hcr⟩ := (mem_mapM hcompiled).1 hc
    rw [compile_baseDir hcr] at haccepts
    refine ⟨r, hr, ?_⟩
    cases hstrip : p.stripPrefix r.baseDir with
    | none => simp [hstrip] at haccepts
    | some relative =>
      simp only [hstrip, Bool.and_eq_true, Bool.not_eq_true'] at haccepts
      exact ⟨relative, rfl, haccepts.1, c, hcr, haccepts.2⟩
  · rintro ⟨r, hr, relative, hstrip, hexcl, c, hcr, haccepts⟩
    refine ⟨c, (mem_mapM hcompiled).2 ⟨r, hr, hcr⟩, ?_⟩
    simp only [compile_baseDir hcr, hstrip, Bool.and_eq_true, Bool.not_eq_true']
    exact ⟨hexcl, haccepts⟩

/-! ## One request of the resolver -/

theorem fileEntryFromPath_path {prior : HashMap String FileEntry} {base : ResolvedBase}
    {path : String} {entry : FileEntry} (h : fileEntryFromPath disk prior base path = .ok entry) :
    entry.path = qualifyRelativePath base.prefixPath path := by
  obtain ⟨metadata, -, h⟩ := bind_eq_ok.1 h
  split at h
  · obtain rfl := Except.ok.inj h
    rfl
  · obtain ⟨hash, -, h⟩ := bind_eq_ok.1 h
    obtain rfl := Except.ok.inj h
    rfl

theorem buildPathGlobset_eq_ok {patterns : List String} {m : Glob} :
    buildPathGlobset globs patterns = .ok m ↔ buildGlobset globs patterns = .ok m := by
  unfold buildPathGlobset buildGlobset
  rw [bind_eq_ok, bind_eq_ok]
  simp only [mapError_eq_ok]

/-- What the listing has to offer: nothing for a literal. -/
def Offered (disk : Disk) (r : ResolveRequest) (relative : Path) : Prop :=
  r.semantics = .Wildcard → Listed disk r.baseDir relative

section Request

variable {prior : HashMap String FileEntry} {exclusions : Exclusions} {r : ResolveRequest}
  {base : ResolvedBase} {es : List FileEntry}

theorem literalRequest_paths (globs : GlobLibrary) (hsem : r.semantics = .Literal) (hplain : PlainLiteral r)
    (h : resolveLiteralRequest disk prior exclusions r base = .ok es) (q : String) :
    (∃ e ∈ es, e.path = q) ↔ ∃ names, Accepts globs exclusions r (.ofNames names) ∧
      q = qualifyRelativePath base.prefixPath (Path.ofNames names).toStr := by
  obtain ⟨names, -, htext⟩ := hplain
  have hpath : Path.ofStr (unescapeLiteral r.pattern) = .ofNames names := by
    rw [htext, ofStr_toStr_ofNames]
  have haccepts : ∀ names', Accepts globs exclusions r (.ofNames names') ↔
      Path.ofNames names' = .ofNames names ∧
        exclusions.excludes (Path.ofNames names).toStr = false := by
    intro names'
    unfold Accepts CompiledInclude.compile
    rw [hsem, hpath]
    constructor
    · rintro ⟨hexcl, c, hc, haccepts⟩
      obtain rfl := Except.ok.inj hc
      have heq : Path.ofNames names' = .ofNames names := by
        simpa [CompiledInclude.accepts] using haccepts
      exact ⟨heq, heq ▸ hexcl⟩
    · rintro ⟨heq, hexcl⟩
      rw [heq]
      exact ⟨hexcl, _, rfl, by simp [CompiledInclude.accepts]⟩
  unfold resolveLiteralRequest at h
  rw [htext] at h
  dsimp only at h
  split at h
  · rename_i hexcl
    obtain rfl := Except.ok.inj h
    constructor
    · rintro ⟨e, he, -⟩
      cases he
    · rintro ⟨names', hnames', -⟩
      rw [((haccepts names').1 hnames').2] at hexcl
      contradiction
  · rename_i hexcl
    obtain ⟨e, he, rfl⟩ := map_eq_ok.1 h
    rw [Bool.not_eq_true] at hexcl
    constructor
    · rintro ⟨e', he', rfl⟩
      rw [List.mem_singleton] at he'
      exact ⟨names, (haccepts names).2 ⟨rfl, hexcl⟩, by rw [he', fileEntryFromPath_path he]⟩
    · rintro ⟨names', hnames', rfl⟩
      rw [((haccepts names').1 hnames').1]
      exact ⟨e, List.mem_singleton_self e, fileEntryFromPath_path he⟩

theorem wildcardRequest_paths (hsem : r.semantics = .Wildcard) {candidates : List Path}
    (hlist : listedNow disk none r.baseDir = .ok candidates)
    (h : resolveWildcardWithCandidates disk globs prior exclusions base r.pattern candidates = .ok es)
    (q : String) :
    (∃ e ∈ es, e.path = q) ↔ ∃ names, Accepts globs exclusions r (.ofNames names) ∧
      Listed disk r.baseDir (.ofNames names) ∧
      q = qualifyRelativePath base.prefixPath (Path.ofNames names).toStr := by
  obtain ⟨m, hm, h⟩ := bind_eq_ok.1 h
  have haccepts : ∀ p : Path, Accepts globs exclusions r p ↔
      m p.toStr = true ∧ exclusions.excludes p.toStr = false := by
    intro p
    unfold Accepts CompiledInclude.compile
    rw [hsem, buildPathGlobset_eq_ok.2 hm]
    constructor
    · rintro ⟨hexcl, c, hc, haccepts⟩
      obtain rfl := Except.ok.inj hc
      exact ⟨haccepts, hexcl⟩
    · rintro ⟨haccepts, hexcl⟩
      exact ⟨hexcl, _, rfl, haccepts⟩
  have hmem : ∀ p : Path, (p ∈ candidates.filter fun c =>
      m c.toStr && !exclusions.excludes c.toStr) ↔ Listed disk r.baseDir p ∧
        Accepts globs exclusions r p := by
    intro p
    rw [List.mem_filter, haccepts, Bool.and_eq_true, Bool.not_eq_true']
    refine and_congr_left fun _ => ⟨fun hp => ⟨candidates, hlist, hp⟩, ?_⟩
    rintro ⟨candidates', hlist', hp⟩
    rwa [Except.ok.inj (hlist.symm.trans hlist')]
  constructor
  · rintro ⟨e, he, rfl⟩
    obtain ⟨c, hc, hce⟩ := (mem_mapM h).1 he
    obtain ⟨names, rfl⟩ := listedNow_files hlist c (List.mem_filter.1 hc).1
    obtain ⟨hlisted, hacc⟩ := (hmem _).1 hc
    exact ⟨names, hacc, hlisted, fileEntryFromPath_path hce⟩
  · rintro ⟨names, hacc, hlisted, rfl⟩
    have hc := (hmem _).2 ⟨hlisted, hacc⟩
    obtain ⟨e, he⟩ := exists_of_mapM h hc
    exact ⟨e, (mem_mapM h).2 ⟨_, hc, he⟩, fileEntryFromPath_path he⟩

/-- What one request of the resolver yields. -/
theorem singleRequest_paths (hplain : r.semantics = .Literal → PlainLiteral r)
    (h : knownSingleRequest disk none globs prior exclusions r base = .ok es) (q : String) :
    (∃ e ∈ es, e.path = q) ↔ ∃ names, Accepts globs exclusions r (.ofNames names) ∧
      Offered disk r (.ofNames names) ∧
      q = qualifyRelativePath base.prefixPath (Path.ofNames names).toStr := by
  unfold knownSingleRequest at h
  unfold Offered
  cases hsem : r.semantics with
  | Literal =>
    rw [hsem] at h
    rw [literalRequest_paths globs hsem (hplain hsem) h]
    simp
  | Wildcard =>
    rw [hsem] at h
    obtain ⟨candidates, hlist, h⟩ := bind_eq_ok.1 h
    rw [wildcardRequest_paths hsem hlist h]
    simp

end Request

/-- Only plain paths are accepted and offered. -/
theorem names_of_accepts {exclusions : Exclusions} {r : ResolveRequest} {relative : Path}
    (hplain : r.semantics = .Literal → PlainLiteral r)
    (hlisted : ∀ candidates, listedNow disk none r.baseDir = .ok candidates →
      ∀ c ∈ candidates, NoBackslash c.components)
    (haccepts : Accepts globs exclusions r relative) (hoffered : Offered disk r relative) :
    ∃ names, relative = .ofNames names ∧ NoBackslash relative.components := by
  cases hsem : r.semantics with
  | Literal =>
    obtain ⟨names, hb, htext⟩ := hplain hsem
    obtain ⟨-, c, hc, haccepts⟩ := haccepts
    unfold CompiledInclude.compile at hc
    rw [hsem] at hc
    obtain rfl := Except.ok.inj hc
    have heq : relative = .ofStr (unescapeLiteral r.pattern) := by
      simpa [CompiledInclude.accepts] using haccepts
    rw [htext, ofStr_toStr_ofNames] at heq
    exact ⟨names, heq, heq ▸ hb⟩
  | Wildcard =>
    obtain ⟨candidates, hlist, hmem⟩ := hoffered hsem
    obtain ⟨names, heq⟩ := listedNow_files hlist relative hmem
    exact ⟨names, heq, hlisted candidates hlist relative hmem⟩

/-! ## Base directories -/

theorem popComponents_append {base pre : List Component} (hpre : ∀ c ∈ pre, c.Proper) :
    popComponents pre.length ⟨base ++ pre⟩ = ⟨base⟩ := by
  induction pre using List.reverseRecOn with
  | nil => rw [List.append_nil]; rfl
  | append_singleton pre c ih =>
    obtain ⟨hpre, hc⟩ := List.forall_mem_append.1 hpre
    have hparent : (Framework.Path.mk (base ++ (pre ++ [c]))).parent = some (.mk (base ++ pre)) := by
      have hlast : (base ++ (pre ++ [c])).getLast? = some c := by simp
      unfold Path.parent
      dsimp only
      rw [hlast]
      cases hc c (List.mem_singleton_self c) with
      | parentDir => simp [← List.append_assoc]
      | normal n => simp [FileName.component, ← List.append_assoc]
    rw [List.length_append, List.length_singleton, popComponents, hparent]
    exact ih hpre

/-- A base directory below an absolute worktree root. -/
theorem base_split {repoRoot : String} {r : ResolveRequest} (hvalid : Validated (.ofStr repoRoot) r)
    {rc : List Component} {pre : Path} (hstrip : r.baseDir.stripPrefix ⟨.rootDir :: rc⟩ = some pre) :
    r.baseDir.components = .rootDir :: (rc ++ pre.components) ∧ (∀ c ∈ rc, c.Proper) ∧
      ∀ c ∈ pre.components, c.Proper := by
  obtain ⟨text, htext⟩ : ∃ text : String, r.baseDir = .ofStr text := by
    rcases hvalid.baseDir with h | h
    · exact ⟨repoRoot, h⟩
    · exact h
  have hbase : r.baseDir.components = .rootDir :: (rc ++ pre.components) :=
    Path.stripPrefix_eq_some_iff.1 hstrip
  have hproper : ∀ c ∈ rc ++ pre.components, c.Proper := by
    obtain ⟨front, climb, names, hfront, hform⟩ := hvalid.normalForm
    rw [hbase] at hform
    have hrest : rc ++ pre.components = List.replicate climb .parentDir ++ names.map .normal := by
      rcases hfront with rfl | rfl
      · have hmem : Component.rootDir ∈ [] ++ List.replicate climb Component.parentDir ++
            names.map Component.normal := hform ▸ List.mem_cons_self
        simp at hmem
      · exact (List.cons.inj hform).2
    intro c hc
    have hmem : c ∈ (Path.ofStr text).components := by
      rw [← htext, hbase]
      exact List.mem_cons_of_mem _ hc
    rw [hrest, List.mem_append] at hc
    rcases hc with hc | hc
    · rw [List.eq_of_mem_replicate hc]
      exact .parentDir
    · obtain ⟨name, -, rfl⟩ := List.mem_map.1 hc
      rcases proper_ofStr text _ hmem with h | h | h
      · cases h
      · cases h
      · exact h
  exact ⟨hbase, List.forall_mem_append.1 hproper⟩

/-! ## All requests -/

section Whole

variable {repoRoot : String} {rc : List Component} {exclusions : Exclusions}
  {prior : HashMap String FileEntry}

/-- What one request yields, in terms of places. -/
theorem requestEntries_ok {r : ResolveRequest} (hvalid : Validated (.ofStr repoRoot) r)
    (hroot : disk.discover r.baseDir = .ok ⟨.rootDir :: rc⟩)
    (hplain : r.semantics = .Literal → PlainLiteral r) (hbase : NoBackslash r.baseDir.components)
    (hlisted : ∀ candidates, listedNow disk none r.baseDir = .ok candidates →
      ∀ c ∈ candidates, NoBackslash c.components) {root' : Path} {es : List FileEntry}
    (h : knownRequestEntries disk none globs prior exclusions r = .ok (root', es)) :
    root' = ⟨.rootDir :: rc⟩ ∧ (∀ e ∈ es, Tidy rc e) ∧
      ∀ p, (∃ e ∈ es, EntryFor ⟨.rootDir :: rc⟩ p e) ↔ ∃ relative,
        p.stripPrefix r.baseDir = some relative ∧ Accepts globs exclusions r relative ∧
          Offered disk r relative := by
  obtain ⟨pre, hpre, h⟩ := bind_eq_ok.1 h
  obtain ⟨es', hes, h⟩ := bind_eq_ok.1 h
  obtain ⟨rfl, rfl⟩ := Prod.mk.inj (Except.ok.inj h)
  obtain ⟨workDir, hworkDir, hpre⟩ := bind_eq_ok.1 hpre
  obtain rfl := Except.ok.inj (hworkDir.symm.trans hroot)
  have hstrip := stripBaseDir_eq_ok.1 hpre
  obtain ⟨hcomponents, hrc, hprec⟩ := base_split hvalid hstrip
  rw [hcomponents] at hbase
  obtain ⟨-, hbase⟩ := List.forall_mem_cons.1 hbase
  obtain ⟨hrcb, hpreb⟩ := List.forall_mem_append.1 hbase
  have hpaths := singleRequest_paths hplain hes
  -- the path of an entry, read below the worktree root
  have hread : ∀ names, NoBackslash (Path.ofNames names).components →
      Path.ofStr (qualifyRelativePath pre (Path.ofNames names).toStr) =
        ⟨pre.components ++ (Path.ofNames names).components⟩ := fun names hb =>
    ofStr_qualify hprec (proper_ofNames names) hpreb hb
  refine ⟨?_, fun e he => ?_, fun p => ?_⟩
  · have hpath : r.baseDir = ⟨.rootDir :: rc ++ pre.components⟩ := Framework.Path.ext hcomponents
    rw [hpath]
    exact popComponents_append hprec
  · obtain ⟨names, haccepts, hoffered, hq⟩ := (hpaths e.path).1 ⟨e, he, rfl⟩
    obtain ⟨-, -, hb⟩ := names_of_accepts hplain hlisted haccepts hoffered
    refine ⟨pre.components ++ (Path.ofNames names).components,
      List.forall_mem_append.2 ⟨hrc, List.forall_mem_append.2 ⟨hprec, proper_ofNames names⟩⟩,
      List.forall_mem_append.2 ⟨hrcb, List.forall_mem_append.2 ⟨hpreb, hb⟩⟩, ?_,
      hq ▸ hread names hb, ?_⟩
    · have hnormal := hvalid.normalForm.append (names.map FileName.name)
      rw [hcomponents, List.map_map] at hnormal
      rw [← List.append_assoc]
      exact hnormal
    · rw [hq, qualify_eq hprec (proper_ofNames names) hpreb hb]
      exact pushText_head hprec (proper_ofNames names)
  · have hfor : ∀ names, NoBackslash (Path.ofNames names).components → ∀ e : FileEntry,
        e.path = qualifyRelativePath pre (Path.ofNames names).toStr →
        (EntryFor ⟨.rootDir :: rc⟩ p e ↔ p.stripPrefix r.baseDir = some (.ofNames names)) := by
      intro names hb e he
      rw [EntryFor, he, hread names hb, Path.stripPrefix_eq_some_iff, Path.stripPrefix_eq_some_iff,
        hcomponents]
      simp
    constructor
    · rintro ⟨e, he, hentry⟩
      obtain ⟨names, haccepts, hoffered, hq⟩ := (hpaths e.path).1 ⟨e, he, rfl⟩
      obtain ⟨-, -, hb⟩ := names_of_accepts hplain hlisted haccepts hoffered
      exact ⟨_, (hfor names hb e hq).1 hentry, haccepts, hoffered⟩
    · rintro ⟨relative, hrelative, haccepts, hoffered⟩
      obtain ⟨names, rfl, hb⟩ := names_of_accepts hplain hlisted haccepts hoffered
      obtain ⟨e, he, hq⟩ := (hpaths _).2 ⟨names, haccepts, hoffered, rfl⟩
      exact ⟨e, he, (hfor names hb e hq).2 hrelative⟩

/-- What a whole resolution yields. -/
theorem entries_iff_accepts {ts : Toposort PackageNode} {rs : RandomState} {patterns : List String}
    {sourcePkg : PackageName} {graph : PackageGraph} (hlinks : NoSymlinks disk)
    (hexpand : expandInputPatterns ts rs patterns sourcePkg graph (.ofStr repoRoot) = .ok requests)
    {root : Path} (hone : OneWorktree disk requests root) (hslashes : SlashesOnly disk requests)
    (hplain : ∀ r ∈ includes requests, r.semantics = .Literal → PlainLiteral r)
    {entries : List FileEntry} (hentries : resolveInputsWithSemantics disk globs requests = .ok entries)
    (hexclusions : Exclusions.compile globs (negations requests) = .ok exclusions) (p : Path) :
    (∃ e ∈ entries, EntryFor root p e) ↔ ∃ r ∈ includes requests, ∃ relative,
      p.stripPrefix r.baseDir = some relative ∧ Accepts globs exclusions r relative ∧
        Offered disk r relative := by
  have hvalid := expandInputPatterns_validated hexpand
  obtain ⟨rc, rfl⟩ : ∃ rc, root = ⟨.rootDir :: rc⟩ := by
    have habs := hone.absolute
    cases hcs : root.components with
    | nil => simp [Path.isAbsolute, hcs] at habs
    | cons c rc =>
      obtain rfl : c = .rootDir := by simpa [Path.isAbsolute, hcs] using habs
      exact ⟨rc, Framework.Path.ext hcs⟩
  rw [resolveInputsWithSemantics, (resolveInputs_eq disk globs requests [] none).1] at hentries
  unfold knownInputs at hentries
  split at hentries
  · rename_i hnil
    obtain rfl := Except.ok.inj hentries
    simp [hnil, includes]
  obtain ⟨exclusions', hexclusions', hentries⟩ := bind_eq_ok.1 hentries
  obtain rfl := Except.ok.inj (hexclusions.symm.trans hexclusions')
  obtain ⟨resolved, hresolved, hentries⟩ := bind_eq_ok.1 hentries
  obtain rfl := Except.ok.inj hentries
  have hrequest : ∀ r ∈ includes requests, ∀ x,
      knownRequestEntries disk none globs (priorEntriesByPath []) exclusions r = .ok x →
      x.1 = ⟨.rootDir :: rc⟩ ∧ (∀ e ∈ x.2, Tidy rc e) ∧
        ∀ p, (∃ e ∈ x.2, EntryFor ⟨.rootDir :: rc⟩ p e) ↔ ∃ relative,
          p.stripPrefix r.baseDir = some relative ∧ Accepts globs exclusions r relative ∧
            Offered disk r relative := fun r hr x hx =>
    requestEntries_ok (hvalid r hr) (hone.discover r hr) (hplain r hr) (hslashes.bases r hr)
      (hslashes.listed r hr) hx
  rw [exists_entry_dedupe hlinks]
  · constructor
    · rintro ⟨e, he, hfor⟩
      obtain ⟨x, hx, he⟩ := List.mem_flatMap.1 he
      obtain ⟨r, hr, hrx⟩ := (mem_mapM hresolved).1 hx
      exact ⟨r, hr, ((hrequest r hr x hrx).2.2 p).1 ⟨e, he, hfor⟩⟩
    · rintro ⟨r, hr, haccepts⟩
      obtain ⟨x, hx⟩ := exists_of_mapM hresolved hr
      obtain ⟨e, he, hfor⟩ := ((hrequest r hr x hx).2.2 p).2 haccepts
      exact ⟨e, List.mem_flatMap.2 ⟨x, (mem_mapM hresolved).2 ⟨r, hr, hx⟩, he⟩, hfor⟩
  · intro q hq
    obtain ⟨x, hx, rfl⟩ := List.mem_map.1 (mem_of_mem_uniqueRoots hq)
    obtain ⟨r, hr, hrx⟩ := (mem_mapM hresolved).1 hx
    exact (hrequest r hr x hrx).1
  · intro e he
    obtain ⟨x, hx, he⟩ := List.mem_flatMap.1 he
    obtain ⟨r, hr, hrx⟩ := (mem_mapM hresolved).1 hx
    exact (hrequest r hr x hrx).2.1 e he

/-- The matcher accepts a path exactly if the resolver yields an entry for it, or a glob accepts it
where the listing does not offer it. -/
theorem matchesPath_iff_entry {ts : Toposort PackageNode} {rs : RandomState} {patterns : List String}
    {sourcePkg : PackageName} {graph : PackageGraph} {root : Path} {entries : List FileEntry}
    {matcher : PathRequestMatcher}
    (hexpand : expandInputPatterns ts rs patterns sourcePkg graph (.ofStr repoRoot) = .ok requests)
    (hlinks : NoSymlinks disk) (hone : OneWorktree disk requests root)
    (hslashes : SlashesOnly disk requests)
    (hplain : ∀ r ∈ includes requests, r.semantics = .Literal → PlainLiteral r)
    (hentries : resolveInputsWithSemantics disk globs requests = .ok entries)
    (hmatcher : PathRequestMatcher.compile globs requests = .ok matcher) (p : Path) :
    matcher.matchesPath p = true ↔ (∃ e ∈ entries, EntryFor root p e) ∨
      UnlistedMatch disk globs matcher.exclusions requests p := by
  have hexclusions : Exclusions.compile globs (negations requests) = .ok matcher.exclusions := by
    obtain ⟨exclusions, hexclusions, h⟩ := bind_eq_ok.1 hmatcher
    obtain ⟨compiled, -, h⟩ := bind_eq_ok.1 h
    obtain rfl := Except.ok.inj h
    exact hexclusions
  rw [matchesPath_iff_accepts hmatcher,
    entries_iff_accepts hlinks hexpand hone hslashes hplain hentries hexclusions]
  constructor
  · rintro ⟨r, hr, relative, hrelative, haccepts⟩
    by_cases hoffered : Offered disk r relative
    · exact .inl ⟨r, hr, relative, hrelative, haccepts, hoffered⟩
    · unfold Offered at hoffered
      push Not at hoffered
      exact .inr ⟨r, hr, hoffered.1, relative, hrelative, haccepts, hoffered.2⟩
  · rintro (⟨r, hr, relative, hrelative, haccepts, -⟩ | ⟨r, hr, -, relative, hrelative, haccepts, -⟩)
    · exact ⟨r, hr, relative, hrelative, haccepts⟩
    · exact ⟨r, hr, relative, hrelative, haccepts⟩

end Whole

/-! ## A workspace -/

/-- A run of characters other than slashes, and then the rest. -/
def starRest (rest : List Char → Bool) : List Char → Bool
  | [] => rest []
  | c :: text => rest (c :: text) || (c ≠ '/' && starRest rest text)

/-- Patterns in which nothing but a single `*` is special. -/
def starMatch : List Char → List Char → Bool
  | [] => List.isEmpty
  | '*' :: pattern => starRest (starMatch pattern)
  | c :: pattern => fun text => text.head? = some c && starMatch pattern text.tail

def starGlobs : GlobLibrary where
  buildPathGlob pattern := .ok fun text => starMatch pattern.toList text.toList
  buildSet globs := .ok fun text => globs.any (· text)

def placeOf (names : List FileName) : Path := ⟨.rootDir :: (Path.ofNames names).components⟩

/-- A disk with these files, a repository at `/repo` and another one in `/repo/vendor`. -/
def diskOf (files : List (List FileName)) : Disk where
  discover dir := .ok (.ofStr (
    if dir.startsWith (.ofStr "/repo/vendor") then "/repo/vendor" else "/repo"))
  openRepo root := .ok ⟨root.join (.ofStr ".git"), fun _ => .ok false⟩
  walk dir := (files.filter fun names => (placeOf names).startsWith dir).map fun names =>
    ⟨names.drop (dir.components.length - 1), .ok .file⟩
  metadata place := .ok (if place.lexicalNormalize ∈ files.map placeOf then some ⟨1, 0⟩ else none)
  blake3File place := .ok (.replicate 32 (if place.startsWith (.ofStr "/repo/vendor") then 2 else 1))
  canonicalize place :=
    if place.lexicalNormalize ∈ files.map placeOf then some place.lexicalNormalize else none

def repoName : FileName := ⟨"repo", by decide⟩
def appName : FileName := ⟨"app", by decide⟩
def vendorName : FileName := ⟨"vendor", by decide⟩
def textName : FileName := ⟨"x.txt", by decide⟩

def vendorGraph : PackageGraph :=
  .ofNodes [⟨⟨"app"⟩, "/repo/app"⟩, ⟨⟨"vendor"⟩, "/repo/vendor"⟩] [] none (by decide) (by decide)

def expandIn (source : String) (patterns : List String) :
    Except InputExpansionError (List ResolveRequest) :=
  expandInputPatterns .kahn .id patterns ⟨source⟩ vendorGraph (.ofStr "/repo")

def repoRequests : List ResolveRequest :=
  [⟨.ofStr "/repo/app", "gen.txt", .Literal, false⟩, ⟨.ofStr "/repo", "*.txt", .Wildcard, false⟩]

def repoMatcher : PathRequestMatcher where
  includes := [.Literal (.ofStr "/repo/app") (.ofStr (unescapeLiteral "gen.txt")),
    .Wildcard (.ofStr "/repo") fun text =>
      [fun text : String => starMatch "*.txt".toList text.toList].any (· text)]
  exclusions := none


/-- The literal has no file, and the glob selects `/repo/x.txt`. -/
def repoEntries : List FileEntry :=
  [FileEntry.absentEntry "app/gen.txt", ⟨"x.txt", 1, 0, .replicate 32 1, false⟩]

theorem matchesPath_sample :
    repoMatcher.matchesPath (.ofStr "/repo/x.txt") = true ↔
      (∃ e ∈ repoEntries, EntryFor (.ofStr "/repo") (.ofStr "/repo/x.txt") e) ∨
        UnlistedMatch (diskOf [[repoName, textName]]) starGlobs none repoRequests
          (.ofStr "/repo/x.txt") := by
  have hexpand : expandInputPatterns .kahn .id ["gen.txt", "#*.txt"] ⟨"app"⟩ vendorGraph
      (.ofStr "/repo") = .ok repoRequests := by decide
  have hentries : resolveInputsWithSemantics (diskOf [[repoName, textName]]) starGlobs repoRequests =
      .ok repoEntries := by decide +kernel
  have hmatcher : PathRequestMatcher.compile starGlobs repoRequests = .ok repoMatcher := by rfl
  have hlinks : NoSymlinks (diskOf [[repoName, textName]]) := by
    intro p q h
    dsimp only [diskOf] at h
    split at h
    · exact (Option.some.inj h).symm
    · cases h
  have hslashes : SlashesOnly (diskOf [[repoName, textName]]) repoRequests := by
    have hlists : ∀ r ∈ includes repoRequests,
        ((listedNow (diskOf [[repoName, textName]]) none r.baseDir).toOption.all fun candidates =>
          candidates.all fun c => c.components.all fun n => '\\' ∉ n.name.toList) = true := by
      decide
    refine ⟨by unfold NoBackslash; decide, fun r hr candidates h c hc n hn => ?_⟩
    have hall := hlists r hr
    rw [h] at hall
    have hname := List.all_eq_true.1 (List.all_eq_true.1 hall c hc) n hn
    simpa using hname
  have hplain : ∀ r ∈ includes repoRequests, r.semantics = .Literal → PlainLiteral r := by
    have hnames : PlainLiteral ⟨.ofStr "/repo/app", "gen.txt", .Literal, false⟩ :=
      ⟨[⟨"gen.txt", by decide⟩], by unfold NoBackslash; decide, by decide⟩
    intro r hr hsem
    rcases List.mem_cons.1 hr with rfl | hr
    · exact hnames
    · rcases List.mem_singleton.1 hr with rfl
      cases hsem
  exact matchesPath_iff_entry hexpand hlinks ⟨by decide, by decide⟩ hslashes hplain hentries
    hmatcher _

/-- What the resolver yields, and whether the matcher accepts some paths. -/
def bothSides (files : List (List FileName)) (source : String) (patterns paths : List String) :
    Option (List (String × Bool) × List Bool) := do
  let requests ← (expandIn source patterns).toOption
  let entries ← (resolveInputsWithSemantics (diskOf files) starGlobs requests).toOption
  let matcher ← (PathRequestMatcher.compile starGlobs requests).toOption
  return (entries.map fun e => (e.path, e.absent), paths.map (matcher.matchesPath <| .ofStr ·))

/-- Of a path that a negation excludes for its own package only, and that is not there: no entry, and
the matcher accepts it by the glob of the root. Of two files with one path in two worktrees: one
entry, and the matcher accepts both. Of a literal with a dot in its spelling: an entry, and the
matcher accepts no such path. Of a name with a backslash: an entry for another path. -/
theorem matcher_and_resolver_differ :
    bothSides [] "app" ["gen.txt", "#app/*.txt", "!gen.txt"] ["/repo/app/gen.txt"] =
        some ([], [true]) ∧
      bothSides [[repoName, textName], [repoName, vendorName, textName]] "vendor"
          ["x.txt", "#x.txt"] ["/repo/x.txt", "/repo/vendor/x.txt"] =
        some ([("x.txt", false)], [true, true]) ∧
      bothSides [] "app" ["./gen.txt"] ["/repo/app/gen.txt"] =
        some ([("app/./gen.txt", true)], [false]) ∧
      bothSides [[repoName, appName, ⟨"a\\b", by decide⟩]] "app" ["*"] ["/repo/app/a\\b"] =
        some ([("app/a/b", false)], [true]) := by
  refine ⟨?_, ?_, ?_, ?_⟩ <;> decide +kernel

end Luchta.Proof.Resolve
