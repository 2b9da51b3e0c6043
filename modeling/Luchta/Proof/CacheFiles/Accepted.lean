import Luchta.Framework.Partial
import Luchta.Proof.CacheFiles.Selection

/-!
# What the reader accepts

A path that the patterns match on reading, and whether resolving a package that has it selects it.

* `proper_prefixUnion`: the directories that are listed are named below the package.
* `mem_listOutputCandidates`: a file is listed exactly below these.
* `selects_iff`: a matched path is selected exactly if its first literal spelling is not excluded, and
  where there is none, if it is listed.
-/

namespace Luchta.Proof.CacheFiles

open Luchta.Framework Luchta.Impl

/-! ## Prefixes -/

theorem splitWhen_not_sep {sep : Char → Bool} (chars : List Char) :
    ∀ part ∈ splitWhen sep chars, ∀ c ∈ part, sep c = false := by
  induction chars with
  | nil =>
    intro part hpart c hc
    rw [splitWhen, List.mem_singleton] at hpart
    rw [hpart] at hc
    cases hc
  | cons c cs ih =>
    rw [splitWhen]
    split
    · rw [List.forall_mem_cons]
      exact ⟨nofun, ih⟩
    · rename_i hsep
      have hc : sep c = false := by simpa using hsep
      split
      · rw [List.forall_mem_singleton, List.forall_mem_singleton]
        exact hc
      · rename_i part parts heq
        rw [heq, List.forall_mem_cons] at ih
        rw [List.forall_mem_cons, List.forall_mem_cons]
        exact ⟨⟨hc, ih.1⟩, ih.2⟩

theorem names_staticPrefixFrom {segments : List (List Char)} {names result : List String}
    (hsegments : ∀ segment ∈ segments, '/' ∉ segment)
    (hnames : ∀ name ∈ names, ∃ n : FileName, n.name = name)
    (h : staticPrefixFrom names segments = some result) :
    ∀ name ∈ result, ∃ n : FileName, n.name = name := by
  induction segments generalizing names with
  | nil =>
    obtain rfl := Option.some.inj h
    exact hnames
  | cons segment segments ih =>
    obtain ⟨hsegment, hsegments⟩ := List.forall_mem_cons.1 hsegments
    rw [staticPrefixFrom] at h
    split at h
    · exact ih hsegments hnames h
    · rename_i hempty
      rw [not_or] at hempty
      split at h
      · cases h
      · rename_i hdots
        split at h
        · split at h
          · cases h
          · obtain rfl := Option.some.inj h
            exact hnames
        · have hne : ∀ s : String, segment ≠ s.toList → String.ofList segment ≠ s := by
            rintro s hs rfl
            exact hs String.toList_ofList.symm
          have hname : ∃ n : FileName, n.name = String.ofList segment :=
            ⟨⟨String.ofList segment, hne "" hempty.1, hne "." hempty.2, hne ".." hdots,
              by rwa [String.toList_ofList]⟩, rfl⟩
          exact ih hsegments
            (List.forall_mem_append.2 ⟨hnames, List.forall_mem_singleton.2 hname⟩) h

theorem proper_staticPrefix {pattern : String} {p : Path} (h : staticPrefix pattern = some p) :
    ∀ c ∈ p.components, c.Proper := by
  rw [staticPrefix, Option.map_eq_some_iff] at h
  obtain ⟨names, hnames, rfl⟩ := h
  have hsegments : ∀ segment ∈ splitWhen (fun c => c = '/' || c = '\\') pattern.toList,
      '/' ∉ segment := by
    intro segment hsegment hmem
    have hsep := splitWhen_not_sep _ segment hsegment '/' hmem
    simp at hsep
  intro c hc
  obtain ⟨name, hname, rfl⟩ := List.mem_map.1 hc
  obtain ⟨n, rfl⟩ := names_staticPrefixFrom hsegments (List.forall_mem_nil _) hnames name hname
  exact .normal n

variable {patterns : List String} {prefixes : List Path}

theorem proper_prefixUnion (h : prefixUnion patterns = some prefixes) :
    ∀ p ∈ prefixes, ∀ c ∈ p.components, c.Proper := by
  intro p hp
  rw [prefixUnion] at h
  split at h
  · obtain rfl := Option.some.inj h
    cases hp
  · obtain ⟨found, hfound, rfl⟩ := Option.map_eq_some_iff.1 h
    have hp := mem_sortBy.1 (mem_dedup.1 hp)
    obtain ⟨pattern, -, hpattern⟩ := exists_of_mem_mapM hfound hp
    exact proper_staticPrefix hpattern

/-! ## Listings -/

variable {disk : Disk} {dir : Path} {candidates : List Path}

theorem mem_walkFiles {entries : List WalkEntry} {files : List (List FileName)}
    (h : walkFiles entries = .ok files) {names : List FileName} :
    names ∈ files ↔ ∃ entry ∈ entries, entry.fileType = .ok .file ∧ entry.names = names := by
  obtain ⟨typed, htyped, h⟩ := bind_eq_ok.1 h
  obtain rfl := Except.ok.inj h
  have hmem : ∀ names fileType, (names, fileType) ∈ typed ↔
      ∃ entry ∈ entries, entry.fileType = .ok fileType ∧ entry.names = names := by
    intro names fileType
    rw [mem_mapM htyped]
    refine exists_congr fun entry => and_congr_right fun _ => map_eq_ok.trans ?_
    constructor
    · rintro ⟨found, hfound, heq⟩
      obtain ⟨hnames, rfl⟩ := Prod.mk.inj heq
      exact ⟨hfound, hnames⟩
    · rintro ⟨hfound, rfl⟩
      exact ⟨fileType, hfound, rfl⟩
  rw [← hmem, List.mem_map]
  constructor
  · rintro ⟨⟨names, fileType⟩, hin, rfl⟩
    obtain ⟨hin, hfile⟩ := List.mem_filter.1 hin
    have hfile : fileType = .file := by simpa using hfile
    exact hfile ▸ hin
  · exact fun hin => ⟨_, List.mem_filter.2 ⟨hin, by simp⟩, rfl⟩

/-- A walk from this directory of the package comes across the path, as a file. -/
def WalkedFrom (disk : Disk) (dir pre p : Path) : Prop :=
  ∃ entry ∈ disk.walk (dir.join pre), entry.fileType = .ok .file ∧
    p.components = pre.components ++ (Path.ofNames entry.names).components

theorem join_nil (dir : Path) : dir.join ⟨[]⟩ = dir := by
  rw [Path.join, if_neg (by simp [Path.isAbsolute])]
  split
  · rename_i hnil
    exact Framework.Path.ext hnil.symm
  · exact Framework.Path.ext (List.append_nil _)

/-- Walks from the prefixes come across the path, or else one from the package. -/
def Listed (disk : Disk) (dir p : Path) : Option (List Path) → Prop
  | none => WalkedFrom disk dir ⟨[]⟩ p
  | some prefixes =>
    ∃ pre ∈ prefixes, exists? disk (dir.join pre) = true ∧ WalkedFrom disk dir pre p

theorem mem_listOutputCandidates {union : Option (List Path)}
    (h : listOutputCandidates disk dir union = .ok candidates) {p : Path} :
    p ∈ candidates ↔ Listed disk dir p union := by
  cases union with
  | none =>
    obtain ⟨files, hfiles, h⟩ := bind_eq_ok.1 h
    obtain rfl := Except.ok.inj h
    rw [Listed, mem_sortBy, List.mem_map, WalkedFrom, join_nil]
    constructor
    · rintro ⟨names, hnames, rfl⟩
      obtain ⟨entry, hentry, hfile, rfl⟩ := (mem_walkFiles hfiles).1 hnames
      exact ⟨entry, hentry, hfile, rfl⟩
    · rintro ⟨entry, hentry, hfile, hp⟩
      exact ⟨_, (mem_walkFiles hfiles).2 ⟨entry, hentry, hfile, rfl⟩, Framework.Path.ext hp.symm⟩
  | some prefixes =>
    obtain ⟨listed, hlisted, h⟩ := bind_eq_ok.1 h
    obtain rfl := Except.ok.inj h
    have hbelow : ∀ pre found, listBelow disk dir pre = .ok found →
        (p ∈ found ↔ exists? disk (dir.join pre) = true ∧ WalkedFrom disk dir pre p) := by
      intro pre found hfound
      rw [listBelow] at hfound
      split at hfound
      · rename_i hexists
        obtain ⟨files, hfiles, hfound⟩ := bind_eq_ok.1 hfound
        obtain rfl := Except.ok.inj hfound
        rw [List.mem_map, and_iff_right hexists, WalkedFrom]
        constructor
        · rintro ⟨names, hnames, rfl⟩
          obtain ⟨entry, hentry, hfile, rfl⟩ := (mem_walkFiles hfiles).1 hnames
          exact ⟨entry, hentry, hfile, rfl⟩
        · rintro ⟨entry, hentry, hfile, hp⟩
          exact ⟨_, (mem_walkFiles hfiles).2 ⟨entry, hentry, hfile, rfl⟩, Framework.Path.ext hp.symm⟩
      · rename_i hexists
        obtain rfl := Except.ok.inj hfound
        simp [hexists]
    rw [Listed, BTreeSet.mem_toList, BTreeSet.mem_extend, List.mem_flatten]
    constructor
    · rintro (hnone | ⟨found, hfound, hp⟩)
      · exact absurd hnone (BTreeSet.not_mem_empty p)
      · obtain ⟨pre, hpre, hlist⟩ := (mem_mapM hlisted).1 hfound
        exact ⟨pre, hpre, (hbelow pre found hlist).1 hp⟩
    · rintro ⟨pre, hpre, hp⟩
      obtain ⟨found, hfound⟩ := exists_of_mapM hlisted hpre
      exact .inr ⟨found, (mem_mapM hlisted).2 ⟨pre, hpre, hfound⟩, (hbelow pre found hfound).2 hp⟩

/-- The listed paths are their texts. -/
theorem ofStr_toStr_candidate {prefixes : Option (List Path)}
    (hprefixes : ∀ l, prefixes = some l → ∀ pre ∈ l, ∀ c ∈ pre.components, c.Proper)
    (h : listOutputCandidates disk dir prefixes = .ok candidates) {p : Path} (hp : p ∈ candidates) :
    Path.ofStr p.toStr = p := by
  have hwalked : ∀ pre : Path, (∀ c ∈ pre.components, c.Proper) → WalkedFrom disk dir pre p →
      Path.ofStr p.toStr = p := by
    rintro pre hpre ⟨entry, -, -, hcomponents⟩
    obtain ⟨components⟩ := p
    obtain rfl : components = _ := hcomponents
    exact ofStr_toStr (List.forall_mem_append.2 ⟨hpre, proper_ofNames entry.names⟩)
  have hmem := (mem_listOutputCandidates h).1 hp
  cases prefixes with
  | none => exact hwalked ⟨[]⟩ nofun hmem
  | some l =>
    obtain ⟨pre, hpre, -, hwalk⟩ := hmem
    exact hwalked pre (hprefixes l rfl pre hpre) hwalk

/-! ## Selection -/

/-- A package that has the path as a file, which walks from above it come across. -/
def Holds (disk : Disk) (dir p : Path) : Prop :=
  ∀ pre : Path, pre.components <+: p.components →
    exists? disk (dir.join pre) = true ∧ WalkedFrom disk dir pre p

/-- Listing comes to this path. -/
def Reached (patterns : List String) (p : Path) : Prop :=
  ∀ prefixes, prefixUnion patterns = some prefixes → ∃ pre ∈ prefixes, pre.components <+: p.components

/-- No negation matches the literal that spells the path first; where there is none, listing comes to
the path. -/
def Selectable (globs : GlobLibrary) (patterns : List String) (p : Path) : Prop :=
  match (literalPaths patterns).find? fun t => Path.ofStr t = p with
  | some t => ∀ body ∈ exclusionBodies patterns, globMatches globs body t = false
  | none => Reached patterns p

/-- The path is one of those that resolving makes entries of. -/
def Selects (disk : Disk) (globs : GlobLibrary) (dir : Path) (patterns : List String) (p : Path) : Prop :=
  ∃ candidates paths, listOutputCandidates disk dir (prefixUnion patterns) = .ok candidates ∧
    resolvedPaths globs patterns candidates = .ok paths ∧ p ∈ paths.map Path.ofStr

variable {globs : GlobLibrary} {p : Path}

theorem mem_candidates (hholds : Holds disk dir p)
    (h : listOutputCandidates disk dir (prefixUnion patterns) = .ok candidates) :
    p ∈ candidates ↔ Reached patterns p := by
  rw [mem_listOutputCandidates h, Reached]
  cases prefixUnion patterns with
  | none => exact iff_of_true (hholds ⟨[]⟩ List.nil_prefix).2 nofun
  | some prefixes =>
    constructor
    · rintro ⟨pre, hpre, -, entry, -, -, hcomponents⟩ _ ⟨⟩
      exact ⟨pre, hpre, hcomponents ▸ List.prefix_append _ _⟩
    · intro hreached
      obtain ⟨pre, hpre, habove⟩ := hreached prefixes rfl
      exact ⟨pre, hpre, hholds pre habove⟩

theorem find?_named (p : Path) :
    (named globs patterns candidates).find? (fun t => Path.ofStr t = p) =
      ((literalPaths patterns).find? fun t => Path.ofStr t = p).or
        (((candidates.map Path.toStr).filter fun text =>
          (globPatterns patterns).any (globMatches globs · text)).find? fun t => Path.ofStr t = p) := by
  rw [named, List.find?_append]

/-- Of the paths that are matched on reading, those are selected that are selectable. -/
theorem selected_iff (hlaws : GlobLaws globs) (haccepted : pathMatchesPatterns globs patterns p = true)
    (hholds : Holds disk dir p)
    (h : listOutputCandidates disk dir (prefixUnion patterns) = .ok candidates) :
    (∃ t, Selected globs patterns candidates t ∧ Path.ofStr t = p) ↔ Selectable globs patterns p := by
  obtain ⟨hincluded, hexcluded⟩ := (pathMatchesPatterns_iff p).1 haccepted
  rw [included_iff] at hincluded
  rw [not_excluded_iff] at hexcluded
  have htext : ∀ c ∈ candidates, Path.ofStr c.toStr = c := fun c hc =>
    ofStr_toStr_candidate (fun _ => proper_prefixUnion) h hc
  rw [Selectable]
  cases hliteral : (literalPaths patterns).find? fun t => Path.ofStr t = p with
  | some t =>
    have hp : Path.ofStr t = p := by
      simpa using List.find?_some hliteral
    have hfirst : (named globs patterns candidates).find? (fun t => Path.ofStr t = p) = some t := by
      rw [find?_named, hliteral, Option.some_or]
    constructor
    · rintro ⟨t', hselected, hp'⟩
      have hfirst' := hselected.first
      rw [hp', hfirst] at hfirst'
      obtain rfl := Option.some.inj hfirst'
      exact hselected.not_excluded
    · exact fun hexcluded => ⟨t, ⟨by rw [hp, hfirst], hexcluded⟩, hp⟩
  | none =>
    have hnone : ∀ t ∈ literalPaths patterns, p ≠ .ofStr t := by
      intro t ht heq
      simpa [heq] using List.find?_eq_none.1 hliteral t ht
    rw [← mem_candidates hholds h]
    constructor
    · rintro ⟨t, hselected, rfl⟩
      rcases List.mem_append.1 (List.mem_of_find?_eq_some hselected.first) with ht | ht
      · exact absurd rfl (hnone t ht)
      · obtain ⟨c, hc, rfl⟩ := List.mem_map.1 (List.mem_filter.1 ht).1
        rwa [htext c hc]
    · intro hp
      obtain ⟨t, ht, heq⟩ | ⟨q, hq, hmatch⟩ := hincluded
      · exact absurd heq (hnone t ht)
      have hlisted : p.toStr ∈ (candidates.map Path.toStr).filter fun text =>
          (globPatterns patterns).any (globMatches globs · text) :=
        List.mem_filter.2 ⟨List.mem_map_of_mem hp, List.any_eq_true.2 ⟨q, hq, hmatch⟩⟩
      -- the only listed text that spells the path is its own
      have hfirst : (named globs patterns candidates).find? (fun t => Path.ofStr t = p) =
          some p.toStr := by
        rw [find?_named, hliteral, Option.none_or]
        cases hfind : List.find? (fun t => decide (Path.ofStr t = p)) _ with
        | none => simpa [htext p hp] using List.find?_eq_none.1 hfind _ hlisted
        | some t =>
          obtain ⟨c, hc, rfl⟩ := List.mem_map.1 (List.mem_filter.1 (List.mem_of_find?_eq_some hfind)).1
          have hcp : Path.ofStr c.toStr = p := by
            simpa using List.find?_some hfind
          rw [htext c hc] at hcp
          rw [hcp]
      refine ⟨p.toStr, ⟨by rw [htext p hp, hfirst], fun body hbody => ?_⟩, htext p hp⟩
      by_cases hwild : classifyPattern body = .Literal
      · rw [← Bool.not_eq_true]
        intro hmatch
        refine (hexcluded body hbody).1 hwild ?_
        rw [← hlaws.literal_text hwild hmatch, htext p hp]
      · exact (hexcluded body hbody).2 hwild

theorem selects_iff (hlaws : GlobLaws globs) (hne : patterns ≠ [])
    (haccepted : pathMatchesPatterns globs patterns p = true) (hholds : Holds disk dir p)
    {entries : List FileEntry} (h : resolveOutputs disk globs dir patterns = .ok entries) :
    Selects disk globs dir patterns p ↔ Selectable globs patterns p := by
  obtain ⟨candidates, hcandidates, h⟩ := bind_eq_ok.1 h
  rw [resolveWithCandidates, if_neg hne] at h
  obtain ⟨paths, hpaths, -⟩ := bind_eq_ok.1 h
  rw [← selected_iff hlaws haccepted hholds hcandidates]
  constructor
  · rintro ⟨candidates', paths', hcandidates', hpaths', hp⟩
    obtain rfl := Except.ok.inj (hcandidates.symm.trans hcandidates')
    obtain ⟨t, ht, rfl⟩ := List.mem_map.1 hp
    exact ⟨t, (mem_resolvedPaths hlaws hpaths').1 ht, rfl⟩
  · rintro ⟨t, hselected, rfl⟩
    exact ⟨candidates, paths, hcandidates, hpaths,
      List.mem_map_of_mem ((mem_resolvedPaths hlaws hpaths).2 hselected)⟩

end Luchta.Proof.CacheFiles
