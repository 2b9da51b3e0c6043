import Luchta.Proof.Resolve.Expansion

/-!
# Input containment

The expansion checks the raw text of a pattern, and the resolver removes its escapes afterwards. So
what is accepted can still leave its base directory: the part `.\.` is a name to the check, and `..`
to the resolver.

* `knownInputs_eq_of_reads`: a resolution looks at no other places than its requests read.
* `contained_iff`: every place read is inside its base directory exactly if the literals stay below
  it once their escapes are removed.
* `stays_of_no_escape`: they do where nothing is escaped.
-/

namespace Luchta.Proof.Resolve

open Luchta.Framework Luchta.Impl

/-- Where a literal points, relative to its base directory. -/
def literalPath (r : ResolveRequest) : Path := .ofStr (unescapeLiteral r.pattern)

/-- The places that a request reads: where a literal points, and what a glob may select. -/
inductive Reads (r : ResolveRequest) : Path → Prop
  | literal (hsem : r.semantics = .Literal) : Reads r (r.baseDir.join (literalPath r))
  | listed {disk : Disk} {candidates : List Path} {c : Path} (hsem : r.semantics = .Wildcard)
      (hlist : listedNow disk none r.baseDir = .ok candidates) (hc : c ∈ candidates) :
      Reads r (r.baseDir.join (.ofStr c.toStr))

def Inside (base place : Path) : Prop := place.lexicalNormalize.startsWith base = true

def Contained (requests : List ResolveRequest) : Prop :=
  ∀ r ∈ includes requests, ∀ place, Reads r place → Inside r.baseDir place

/-- A literal climbs no further than it descends again along its base directory: a relative one from
there, an absolute one from the root. -/
def Stays (r : ResolveRequest) : Prop :=
  if (literalPath r).isAbsolute then
    r.baseDir.components <+: descend [.rootDir] [] (descent (literalPath r).components.tail)
  else r.baseDir.Holds (descent (literalPath r).components)

instance (base place : Path) : Decidable (Inside base place) := inferInstanceAs (Decidable (_ = _))

instance (r : ResolveRequest) : Decidable (Stays r) := inferInstanceAs (Decidable (ite _ _ _))

/-! ## What is read -/

/-- The same repositories and directories, with other contents. -/
def withContents (disk : Disk) (metadata : Path → Except CacheError (Option Metadata))
    (blake3File : Path → Except CacheError Digest) : Disk :=
  { disk with metadata := metadata, blake3File := blake3File }

section Reads

variable {disk : Disk} {metadata : Path → Except CacheError (Option Metadata)}
  {blake3File : Path → Except CacheError Digest} {globs : GlobLibrary}
  {prior : HashMap String FileEntry} {exclusions : Exclusions}

/-- One place looks the same on both disks. -/
def SameContents (disk disk' : Disk) (place : Path) : Prop :=
  disk.metadata place = disk'.metadata place ∧ disk.blake3File place = disk'.blake3File place

theorem fileEntryFromPath_congr {disk' : Disk} {base : ResolvedBase} {path : String}
    (h : SameContents disk disk' (base.dir.join (.ofStr path))) :
    fileEntryFromPath disk prior base path = fileEntryFromPath disk' prior base path := by
  unfold fileEntryFromPath
  dsimp only
  rw [h.1, h.2]

theorem mapM_congr_mem {ε α β : Type} {f g : α → Except ε β} {l : List α}
    (h : ∀ a ∈ l, f a = g a) : l.mapM f = l.mapM g := by
  induction l with
  | nil => rfl
  | cons a l ih =>
    rw [List.mapM_cons, List.mapM_cons, h a List.mem_cons_self,
      ih fun a' ha' => h a' (List.mem_cons_of_mem _ ha')]

theorem knownSingleRequest_congr {r : ResolveRequest} {base : ResolvedBase}
    (hdir : base.dir = r.baseDir)
    (h : ∀ place, Reads r place →
      SameContents disk (withContents disk metadata blake3File) place) :
    knownSingleRequest disk none globs prior exclusions r base =
      knownSingleRequest (withContents disk metadata blake3File) none globs prior exclusions r
        base := by
  unfold knownSingleRequest
  cases hsem : r.semantics with
  | Literal =>
    have hread := h _ (.literal hsem)
    have hentry : fileEntryFromPath disk prior base (unescapeLiteral r.pattern) =
        fileEntryFromPath (withContents disk metadata blake3File) prior base
          (unescapeLiteral r.pattern) :=
      fileEntryFromPath_congr (by rw [hdir]; exact hread)
    dsimp only [resolveLiteralRequest]
    rw [hentry]
  | Wildcard =>
    have hlisted : knownCandidates (withContents disk metadata blake3File) none r.baseDir =
        knownCandidates disk none r.baseDir := rfl
    dsimp only
    rw [hlisted]
    cases hlist : knownCandidates disk none r.baseDir with
    | error e => rfl
    | ok candidates =>
      show resolveWildcardWithCandidates _ _ _ _ _ _ _ = resolveWildcardWithCandidates _ _ _ _ _ _ _
      unfold resolveWildcardWithCandidates
      refine congrArg _ (funext fun globset => mapM_congr_mem fun c hc => ?_)
      apply fileEntryFromPath_congr
      rw [hdir]
      exact h _ (.listed hsem hlist (List.mem_filter.1 hc).1)

/-- A resolution looks at no other places than its requests read. -/
theorem knownInputs_eq_of_reads {requests : List ResolveRequest} {priorEntries : List FileEntry}
    (h : ∀ r ∈ includes requests, ∀ place, Reads r place →
      SameContents disk (withContents disk metadata blake3File) place) :
    knownInputs disk none globs requests priorEntries =
      knownInputs (withContents disk metadata blake3File) none globs requests priorEntries := by
  have hentries : ∀ exclusions : Exclusions, ∀ r ∈ includes requests,
      knownRequestEntries disk none globs (priorEntriesByPath priorEntries) exclusions r =
        knownRequestEntries (withContents disk metadata blake3File) none globs
          (priorEntriesByPath priorEntries) exclusions r := by
    intro exclusions r hr
    unfold knownRequestEntries
    refine congrArg _ (funext fun basePrefix => ?_)
    dsimp only
    rw [knownSingleRequest_congr rfl (h r hr)]
  unfold knownInputs
  dsimp only
  split
  · rfl
  · refine congrArg _ (funext fun exclusions => ?_)
    rw [mapM_congr_mem (hentries exclusions)]
    rfl

end Reads

/-! ## Where it is -/

theorem inside_literal_iff {r : ResolveRequest} (hbase : NormalForm r.baseDir.components) :
    Inside r.baseDir (r.baseDir.join (literalPath r)) ↔ Stays r := by
  unfold Inside Stays
  by_cases habs : (literalPath r).isAbsolute
  · rw [if_pos habs]
    obtain ⟨rest, hrest, hnot⟩ := ofStr_of_absolute habs
    have hbottom : Bottom [.rootDir] := bottom_climb (.inr rfl) 0
    have hfold := foldl_normalizeStep hbottom [] hnot
    rw [Path.join, if_pos habs, Path.startsWith, List.isPrefixOf_iff_prefix, Path.lexicalNormalize]
    show r.baseDir.components <+: (literalPath r).components.foldl normalizeStep [] ↔ _
    have hcomponents : (literalPath r).components = .rootDir :: rest := hrest
    rw [hcomponents, List.tail_cons]
    exact iff_of_eq (congrArg _ hfold)
  · rw [if_neg habs]
    rw [Bool.not_eq_true] at habs
    exact Path.startsWith_normalize_join hbase (rootDir_not_mem_ofStr habs)

theorem inside_listed {base : Path} (hbase : NormalForm base.components) (names : List FileName) :
    Inside base (base.join (.ofStr (Path.ofNames names).toStr)) := by
  have hnot : .rootDir ∉ (Path.ofNames names).components := by
    rw [Path.ofNames, List.mem_map]
    rintro ⟨n, -, h⟩
    cases h
  rw [ofStr_toStr_ofNames, Inside, Path.startsWith_normalize_join hbase hnot]
  apply Path.holds_of_ups_zero
  have h := descent_normal 0 (names.map FileName.name)
  rw [List.replicate_zero, List.nil_append, List.map_map] at h
  exact congrArg Descent.ups h

/-- Every place read is inside its base directory exactly if the literals stay below theirs. -/
theorem contained_iff {ts : Toposort PackageNode} {rs : RandomState} {patterns : List String}
    {sourcePkg : PackageName} {graph : PackageGraph} {repoRoot : Path}
    {requests : List ResolveRequest}
    (h : expandInputPatterns ts rs patterns sourcePkg graph repoRoot = .ok requests) :
    Contained requests ↔ ∀ r ∈ includes requests, r.semantics = .Literal → Stays r := by
  have hvalid := expandInputPatterns_validated h
  refine forall₂_congr fun r hr => ?_
  have hbase := (hvalid r hr).normalForm
  constructor
  · intro hinside hsem
    exact (inside_literal_iff hbase).1 (hinside _ (.literal hsem))
  · intro hstays place hread
    cases hread with
    | literal hsem => exact (inside_literal_iff hbase).2 (hstays hsem)
    | @listed disk candidates c hsem hlist hc =>
      obtain ⟨names, rfl⟩ := listedNow_files hlist c hc
      exact inside_listed hbase names

/-! ## Escapes -/

theorem unescapeChars_of_no_escape {l : List Char} (h : '\\' ∉ l) : unescapeChars l = l := by
  induction l with
  | nil => rfl
  | cons c l ih =>
    rw [List.mem_cons, not_or] at h
    cases l with
    | nil => simp [unescapeChars]
    | cons d l =>
      rw [unescapeChars]
      · rw [ih h.2]
      · rintro d l' rfl -
        exact h.1 rfl

/-- Where nothing is escaped, the check and the resolver see the same path. -/
theorem stays_of_no_escape {repoRoot : Path} {r : ResolveRequest} (hvalid : Validated repoRoot r)
    (hsem : r.semantics = .Literal) (h : '\\' ∉ r.pattern.toList) : Stays r := by
  apply (inside_literal_iff hvalid.normalForm).1
  have hpath : literalPath r = .ofStr (extractLiteralPrefix r.pattern) := by
    rw [literalPath, unescapeLiteral, unescapeChars_of_no_escape h, String.ofList_toList,
      extractLiteralPrefix_of_literal (hvalid.literal hsem)]
  rw [Inside, hpath]
  exact hvalid.inside

def appPackage : PackageNode := ⟨⟨"app"⟩, "/repo/app"⟩

def appGraph : PackageGraph := .ofNodes [appPackage] [] none (by decide) (by decide)

def appRequest (pattern : String) : ResolveRequest :=
  ⟨.ofStr "/repo/app", pattern, classifyPattern pattern, false⟩

theorem contained_sample : Contained (["a/../\\!x.ts", "lib/*.ts"].map appRequest) := by
  have hexpand : expandInputPatterns .kahn .id ["a/../\\!x.ts", "lib/*.ts"] ⟨"app"⟩ appGraph
      (.ofStr "/repo") = .ok (["a/../\\!x.ts", "lib/*.ts"].map appRequest) := by decide
  exact (contained_iff hexpand).2 (by decide)

/-- Two patterns that are accepted for `app`: the first reads `/repo/secret`, the second reads
`/etc/passwd`. -/
theorem escapes_leave_package :
    expandInputPatterns .kahn .id [".\\./secret", "\\/etc/passwd"] ⟨"app"⟩ appGraph (.ofStr "/repo") =
        .ok ([".\\./secret", "\\/etc/passwd"].map appRequest) ∧
      (([".\\./secret", "\\/etc/passwd"].map appRequest).map fun r =>
        (r.baseDir.join (literalPath r)).lexicalNormalize) =
          [.ofStr "/repo/secret", .ofStr "/etc/passwd"] ∧
      ¬ Contained ([".\\./secret", "\\/etc/passwd"].map appRequest) := by
  refine ⟨by decide, by decide, fun h => ?_⟩
  have hinside := h (appRequest ".\\./secret") (by decide) _ (.literal (by decide))
  exact absurd hinside (by decide)

end Luchta.Proof.Resolve
