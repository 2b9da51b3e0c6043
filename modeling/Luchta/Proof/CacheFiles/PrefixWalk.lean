import Luchta.Proof.CacheFiles.RoundTrip
import Luchta.Proof.CacheFiles.StaticPrefix
import Luchta.Proof.Watch.Negations

/-!
# Listing below static prefixes

* `listed_below`: what is listed below the prefixes is what the whole package has there.
* `resolvedPaths_congr`: listings with the same matched files resolve to the same paths.
* `resolveOutputs_correct`: resolving outputs is matching them against the whole package where every name that
  is cut out of a pattern is one that the glob reads.
-/

namespace Luchta.Proof.CacheFiles

open Luchta.Framework Luchta.Impl
open Luchta.Proof.Resolve (placeOf repoName appName textName)

variable {disk : Disk} {globs : GlobLibrary} {dir : Path} {patterns : List String} {pattern : String}
  {candidates : List Path}

/-! ## Surroundings -/

/-- The patterns, matched against a walk of the whole package. -/
def wholeOutputs (disk : Disk) (globs : GlobLibrary) (dir : Path) (patterns : List String) :
    Except CacheError (List FileEntry) := do
  let candidates ← walkOutputCandidates disk dir
  resolveWithCandidates disk globs (priorEntriesByPath []) dir patterns candidates

def nameText (n : FileName) : List Char := n.name.toList

/-- No link, and no other special file, stands on the way. -/
def LinkFree (disk : Disk) (dir : Path) (names : List FileName) : Prop :=
  ∀ above, above ≠ [] → above <+: names → ⟨above, .ok .other⟩ ∉ disk.walk dir

/-- Walks from a directory and from places in it. -/
structure TreeLaw (disk : Disk) (dir : Path) : Prop where
  directory : ⟨[], .ok .file⟩ ∉ disk.walk dir
  below : ∀ names, LinkFree disk dir names → exists? disk (dir.join (.ofNames names)) = true →
    ∀ more fileType, ⟨more, fileType⟩ ∈ disk.walk (dir.join (.ofNames names)) ↔
      ⟨names ++ more, fileType⟩ ∈ disk.walk dir
  present : ∀ names more fileType, ⟨names ++ more, fileType⟩ ∈ disk.walk dir →
    exists? disk (dir.join (.ofNames names)) = true

/-- A set matches what one of its globs matches, and a glob only what begins with its literal text. -/
structure ReadingLaws (globs : GlobLibrary) : Prop where
  set_any : SetAny globs
  literal : ∀ pattern glob, globs.buildPathGlob pattern = .ok glob → ∀ text : String, glob text = true →
    StartsLiterally (splitSlash pattern.toList) (splitSlash text.toList)

/-- No name that is cut out of the pattern is a link, up to where it leads. -/
def CutLinkFree (disk : Disk) (dir : Path) (pattern : String) : Prop :=
  ∀ names, names.map nameText <+: cut (pieces pattern) → LinkFree disk dir names

/-- The names that the glob reads before the first wildcard. -/
def readNames (pattern : String) : List (List Char) := literalSegments (splitSlash pattern.toList)

/-- The cut names are the first ones that the glob reads, if these are names that a file can have. -/
def CutAsRead (pattern : String) : Prop :=
  (∀ name ∈ readNames pattern, name ≠ [] ∧ name ≠ ['.'] ∧ name ≠ ['.', '.']) →
    cut (pieces pattern) <+: readNames pattern

/-! ## Prefixes -/

theorem parts_ofNames (names : List FileName) :
    Component.parts (Path.ofNames names).components = names.map nameText := by
  rw [Component.parts, Path.ofNames, List.map_map]
  rfl

theorem exists_fileName {name : String} (h : (Component.normal name).Proper) :
    ∃ n : FileName, n.name = name := by
  generalize hc : Component.normal name = c at h
  cases h with
  | parentDir => cases hc
  | normal n => exact ⟨n, (Component.normal.inj hc).symm⟩

theorem exists_ofNames {l : List (List Char)}
    (h : ∀ c ∈ l.map fun name => Component.normal (String.ofList name), c.Proper) :
    ∃ names : List FileName, names.map nameText = l ∧
      Path.ofNames names = ⟨l.map fun name => .normal (String.ofList name)⟩ := by
  induction l with
  | nil => exact ⟨[], rfl, rfl⟩
  | cons name l ih =>
    rw [List.map_cons, List.forall_mem_cons] at h
    obtain ⟨n, hn⟩ := exists_fileName h.1
    obtain ⟨names, htext, hnames⟩ := ih h.2
    refine ⟨n :: names, ?_, ?_⟩
    · rw [List.map_cons, htext, nameText, hn, String.toList_ofList]
    · rw [List.map_cons, ← hn]
      exact congrArg (fun p : Framework.Path => Framework.Path.mk (n.component :: p.components)) hnames

theorem staticPrefix_names {p : Path} (h : staticPrefix pattern = some p) :
    ¬ Unbounded pattern ∧ ∃ names : List FileName, p = .ofNames names ∧
      names.map nameText = cut (pieces pattern) := by
  have hproper := proper_staticPrefix h
  rw [staticPrefix_eq] at h
  split at h
  · cases h
  · rename_i hbounded
    obtain rfl := Option.some.inj h
    obtain ⟨names, htext, hnames⟩ := exists_ofNames hproper
    exact ⟨hbounded, names, hnames.symm, htext⟩

theorem exists_staticPrefix (h : ¬ Unbounded pattern) : ∃ p, staticPrefix pattern = some p :=
  ⟨_, by rw [staticPrefix_eq, if_neg h]⟩

theorem mem_prefixUnion {prefixes : List Path} (h : prefixUnion patterns = some prefixes) {p : Path} :
    p ∈ prefixes ↔ ∃ pattern ∈ patterns, isNegated pattern = false ∧ staticPrefix pattern = some p := by
  rw [prefixUnion] at h
  split at h
  · rename_i hnil
    obtain rfl := Option.some.inj h
    simp [hnil]
  · obtain ⟨found, hfound, rfl⟩ := Option.map_eq_some_iff.1 h
    rw [mem_dedup, mem_sortBy]
    constructor
    · intro hp
      obtain ⟨pattern, hpattern, hfront⟩ := exists_of_mem_mapM hfound hp
      obtain ⟨hpattern, hpositive⟩ := List.mem_filter.1 hpattern
      exact ⟨pattern, hpattern, by simpa using hpositive, hfront⟩
    · rintro ⟨pattern, hpattern, hpositive, hfront⟩
      obtain ⟨p', hp', hfront'⟩ := exists_mem_of_mapM hfound
        (List.mem_filter.2 ⟨hpattern, by rw [hpositive]; rfl⟩)
      rw [hfront] at hfront'
      rwa [Option.some.inj hfront']

theorem prefixUnion_unbounded (hpattern : pattern ∈ patterns) (hpositive : isNegated pattern = false)
    (hunbounded : Unbounded pattern) : prefixUnion patterns = none := by
  cases hunion : prefixUnion patterns with
  | none => rfl
  | some prefixes =>
    rw [prefixUnion, if_neg (List.ne_nil_of_mem hpattern)] at hunion
    obtain ⟨found, hfound, -⟩ := Option.map_eq_some_iff.1 hunion
    obtain ⟨p, -, hp⟩ := exists_mem_of_mapM hfound
      (List.mem_filter.2 ⟨hpattern, by rw [hpositive]; rfl⟩)
    exact absurd hunbounded (staticPrefix_names hp).1

/-! ## Listings -/

theorem walkFiles_ok {entries : List WalkEntry} : (∃ files, walkFiles entries = .ok files) ↔
    ∀ entry ∈ entries, ∃ fileType, entry.fileType = .ok fileType := by
  constructor
  · rintro ⟨files, h⟩ entry hentry
    obtain ⟨typed, htyped, -⟩ := bind_eq_ok.1 h
    obtain ⟨b, hb⟩ := exists_of_mapM htyped hentry
    obtain ⟨fileType, hfileType, -⟩ := map_eq_ok.1 hb
    exact ⟨fileType, hfileType⟩
  · intro h
    have htyped : entries.mapM (fun entry => entry.fileType.map fun fileType => (entry.names, fileType)) =
        .ok (entries.map fun entry => (entry.names, entry.fileType.toOption.getD .other)) := by
      refine mapM_eq_ok_map fun entry hentry => ?_
      obtain ⟨fileType, hfileType⟩ := h entry hentry
      rw [hfileType]
      rfl
    exact ⟨_, by rw [walkFiles, htyped]; rfl⟩

theorem ofNames_isPrefix {names all : List FileName}
    (h : (Path.ofNames names).components <+: (Path.ofNames all).components) : names <+: all := by
  refine (List.prefix_map_iff_of_injective ?_).1 h
  rintro ⟨name, _⟩ ⟨name', _⟩ heq
  obtain rfl : name = name' := Component.normal.inj heq
  rfl

theorem walkedFrom_iff (htree : TreeLaw disk dir) {names : List FileName} (hfree : LinkFree disk dir names)
    (p : Path) : exists? disk (dir.join (.ofNames names)) = true ∧ WalkedFrom disk dir (.ofNames names) p ↔
      WalkedFrom disk dir ⟨[]⟩ p ∧ (Path.ofNames names).components <+: p.components := by
  have happend : ∀ more : List FileName, (Path.ofNames (names ++ more)).components =
      (Path.ofNames names).components ++ (Path.ofNames more).components := fun more => List.map_append
  unfold WalkedFrom
  rw [join_nil]
  constructor
  · rintro ⟨hexists, ⟨more, fileType⟩, hentry, rfl, hp⟩
    have hentry := (htree.below names hfree hexists more _).1 hentry
    refine ⟨⟨_, hentry, rfl, ?_⟩, hp ▸ List.prefix_append _ _⟩
    rw [hp, ← happend]
    rfl
  · rintro ⟨⟨⟨all, fileType⟩, hentry, rfl, hp⟩, hpre⟩
    rw [hp, List.nil_append] at hpre
    obtain ⟨more, rfl⟩ := ofNames_isPrefix hpre
    have hexists := htree.present names more _ hentry
    refine ⟨hexists, ⟨more, _⟩, (htree.below names hfree hexists more _).2 hentry, rfl, ?_⟩
    rw [hp, List.nil_append, happend]

theorem mem_whole (hwhole : walkOutputCandidates disk dir = .ok candidates) {p : Path} :
    p ∈ candidates ↔ WalkedFrom disk dir ⟨[]⟩ p := by
  have hlist : listOutputCandidates disk dir none = .ok candidates := hwhole
  exact mem_listOutputCandidates hlist

theorem ofStr_toStr_whole (hwhole : walkOutputCandidates disk dir = .ok candidates) {p : Path}
    (hp : p ∈ candidates) : Path.ofStr p.toStr = p := by
  have hlist : listOutputCandidates disk dir none = .ok candidates := hwhole
  exact ofStr_toStr_candidate (fun _ h => by cases h) hlist hp

/-- What is listed below the prefixes is what the whole package has there. -/
theorem listed_below (htree : TreeLaw disk dir) {prefixes : List Path}
    (hunion : prefixUnion patterns = some prefixes)
    (hfree : ∀ pattern ∈ patterns, isNegated pattern = false → CutLinkFree disk dir pattern)
    (hwhole : walkOutputCandidates disk dir = .ok candidates) :
    ∃ listed, listOutputCandidates disk dir (some prefixes) = .ok listed ∧
      ∀ p, p ∈ listed ↔ p ∈ candidates ∧ ∃ pre ∈ prefixes, pre.components <+: p.components := by
  have hnames : ∀ pre ∈ prefixes, ∃ names : List FileName, pre = .ofNames names ∧ LinkFree disk dir names := by
    intro pre hpre
    obtain ⟨pattern, hpattern, hpositive, hfront⟩ := (mem_prefixUnion hunion).1 hpre
    obtain ⟨-, names, rfl, htext⟩ := staticPrefix_names hfront
    exact ⟨names, rfl, hfree pattern hpattern hpositive names (htext ▸ List.prefix_rfl)⟩
  obtain ⟨files, hfiles, -⟩ := bind_eq_ok.1 hwhole
  have hreadable := walkFiles_ok.1 ⟨files, hfiles⟩
  have hbelow : ∀ pre ∈ prefixes,
      listBelow disk dir pre = .ok ((listBelow disk dir pre).toOption.getD []) := by
    intro pre hpre
    obtain ⟨names, rfl, hlinks⟩ := hnames pre hpre
    rw [listBelow]
    split
    · rename_i hexists
      have hbelow : ∀ entry ∈ disk.walk (dir.join (.ofNames names)),
          ∃ fileType, entry.fileType = .ok fileType := fun entry hentry =>
        hreadable ⟨names ++ entry.names, entry.fileType⟩
          ((htree.below names hlinks hexists entry.names entry.fileType).1 hentry)
      obtain ⟨found, hfound⟩ := walkFiles_ok.2 hbelow
      rw [hfound]
      rfl
    · rfl
  have hlist : listOutputCandidates disk dir (some prefixes) = .ok (BTreeSet.extend .empty
      (prefixes.map fun pre => (listBelow disk dir pre).toOption.getD []).flatten).toList := by
    rw [listOutputCandidates, mapM_eq_ok_map hbelow]
    rfl
  refine ⟨_, hlist, fun p => (mem_listOutputCandidates hlist).trans ?_⟩
  rw [Listed, mem_whole hwhole]
  constructor
  · rintro ⟨pre, hpre, hwalked⟩
    obtain ⟨names, rfl, hlinks⟩ := hnames pre hpre
    obtain ⟨hwalk, habove⟩ := (walkedFrom_iff htree hlinks p).1 hwalked
    exact ⟨hwalk, _, hpre, habove⟩
  · rintro ⟨hwalk, pre, hpre, habove⟩
    obtain ⟨names, rfl, hlinks⟩ := hnames pre hpre
    exact ⟨_, hpre, (walkedFrom_iff htree hlinks p).2 ⟨hwalk, habove⟩⟩

/-! ## Resolved paths -/

theorem length_of_mapM {ε α β : Type} {f : α → Except ε β} {l : List α} {bs : List β}
    (h : l.mapM f = .ok bs) : bs.length = l.length := by
  induction l generalizing bs with
  | nil =>
    obtain rfl := Except.ok.inj h
    rfl
  | cons a l ih =>
    obtain ⟨b, -, bs', hbs', rfl⟩ := mapM_cons_eq_ok.1 h
    rw [List.length_cons, List.length_cons, ih hbs']

/-- Texts of paths make the same spellings in any order and number. -/
theorem extend_congr {s : Spellings} {texts texts' : List String} (h : ∀ t, t ∈ texts ↔ t ∈ texts')
    (hcanonical : ∀ t ∈ texts, (Path.ofStr t).toStr = t) : s.extend texts = s.extend texts' := by
  have hfind : ∀ (l : List String) (k : Path), (∀ t ∈ l, (Path.ofStr t).toStr = t) →
      l.find? (fun t => Path.ofStr t = k) = if k.toStr ∈ l ∧ Path.ofStr k.toStr = k then some k.toStr else none := by
    intro l k hl
    cases hfind : l.find? fun t => Path.ofStr t = k with
    | none =>
      rw [if_neg]
      rintro ⟨hmem, hk⟩
      simpa [hk] using List.find?_eq_none.1 hfind _ hmem
    | some t =>
      have hk : Path.ofStr t = k := by simpa using List.find?_some hfind
      have hmem := List.mem_of_find?_eq_some hfind
      rw [← hk, hl t hmem, if_pos ⟨hmem, rfl⟩]
  refine BTreeMap.ext_get? fun k => ?_
  rw [extend_get?, extend_get?, hfind texts k hcanonical,
    hfind texts' k fun t ht => hcanonical t ((h t).2 ht)]
  simp only [h]

theorem resolvedPaths_congr (hset : SetAny globs) {candidates' : List Path}
    (hcandidates : ∀ p, (∃ q ∈ globPatterns patterns, globMatches globs q p.toStr = true) →
      (p ∈ candidates ↔ p ∈ candidates'))
    (hcanonical : ∀ p ∈ candidates ++ candidates', Path.ofStr p.toStr = p) :
    resolvedPaths globs patterns candidates = resolvedPaths globs patterns candidates' := by
  rw [resolvedPaths, resolvedPaths]
  refine bind_congr fun exclusions => ?_
  rw [globbed, globbed]
  by_cases hnil : globPatterns patterns = []
  · rw [if_pos hnil, if_pos hnil]
  · rw [if_neg hnil, if_neg hnil]
    cases hglobset : buildGlobset globs (globPatterns patterns) with
    | error e => rfl
    | ok set =>
      have hmem : ∀ l l' : List Path, (∀ p ∈ l, Path.ofStr p.toStr = p) → (∀ p ∈ l,
          (∃ q ∈ globPatterns patterns, globMatches globs q p.toStr = true) → p ∈ l') → ∀ t,
          t ∈ (l.map Path.toStr).filter (set ·) → t ∈ (l'.map Path.toStr).filter (set ·) := by
        intro l l' hl hin t ht
        obtain ⟨ht, hmatch⟩ := List.mem_filter.1 ht
        obtain ⟨p, hp, rfl⟩ := List.mem_map.1 ht
        have hany := hmatch
        rw [buildGlobset_iff hset hglobset, List.any_eq_true] at hany
        exact List.mem_filter.2 ⟨List.mem_map_of_mem (hin p hp hany), hmatch⟩
      rw [List.forall_mem_append] at hcanonical
      have hsame : ∀ t, t ∈ (candidates.map Path.toStr).filter (set ·) ↔
          t ∈ (candidates'.map Path.toStr).filter (set ·) := fun t =>
        ⟨hmem candidates candidates' hcanonical.1 (fun p hp hq => (hcandidates p hq).1 hp) t,
          hmem candidates' candidates hcanonical.2 (fun p hp hq => (hcandidates p hq).2 hp) t⟩
      show Except.ok _ = Except.ok _
      rw [extend_congr hsame]
      intro t ht
      obtain ⟨p, hp, rfl⟩ := List.mem_map.1 (List.mem_filter.1 ht).1
      rw [hcanonical.1 p hp]

theorem mem_texts_canonical {texts : List String} (h : ∀ t ∈ texts, (Path.ofStr t).toStr = t) {t : String} :
    t ∈ (spellings texts).texts ↔ t ∈ texts := by
  rw [mem_texts]
  refine ⟨List.mem_of_find?_eq_some, fun ht => ?_⟩
  cases hfind : texts.find? fun t' => Path.ofStr t' = Path.ofStr t with
  | none => simpa using List.find?_eq_none.1 hfind t ht
  | some t' =>
    have hpath : Path.ofStr t' = Path.ofStr t := by simpa using List.find?_some hfind
    rw [← h t' (List.mem_of_find?_eq_some hfind), hpath, h t ht]

/-! ## Matched files -/

/-- What a glob matches in the package, name by name. -/
theorem matched_names (hlaws : ReadingLaws globs) (htree : TreeLaw disk dir)
    (hwhole : walkOutputCandidates disk dir = .ok candidates) {p : Path} (hp : p ∈ candidates)
    (hmatch : globMatches globs pattern p.toStr = true) : ∃ all : List FileName, p = .ofNames all ∧
      StartsLiterally (splitSlash pattern.toList) (all.map nameText) := by
  obtain ⟨⟨all, fileType⟩, hentry, rfl, hcomponents⟩ := (mem_whole hwhole).1 hp
  obtain rfl : p = .ofNames all := Framework.Path.ext hcomponents
  obtain ⟨glob, hglob, hmatch⟩ := globMatches_iff.1 hmatch
  have hliteral := hlaws.literal pattern glob hglob _ hmatch
  have hne : (Path.ofNames all).components ≠ [] := by
    intro hnil
    obtain rfl := List.map_eq_nil_iff.1 hnil
    rw [join_nil] at hentry
    exact htree.directory hentry
  rw [toStr_toList (proper_ofNames all), splitSlash_parts (proper_ofNames all) hne, parts_ofNames] at hliteral
  exact ⟨all, rfl, hliteral⟩

theorem nameText_ne (n : FileName) : nameText n ≠ [] ∧ nameText n ≠ ['.'] ∧ nameText n ≠ ['.', '.'] := by
  have hne : ∀ s : String, n.name ≠ s → nameText n ≠ s.toList := fun s h heq =>
    h (String.toList_injective heq)
  exact ⟨hne "" n.valid.1, hne "." n.valid.2.1, hne ".." n.valid.2.2.1⟩

/-- A file that the pattern matches is below the cut names just if they are as the glob reads them. -/
theorem below_cut_iff {names all : List FileName} (hnames : names.map nameText = cut (pieces pattern))
    (hstarts : StartsLiterally (splitSlash pattern.toList) (all.map nameText)) :
    (Path.ofNames names).components <+: (Path.ofNames all).components ↔ CutAsRead pattern := by
  have hinj : Function.Injective nameText := by
    rintro ⟨name, _⟩ ⟨name', _⟩ heq
    obtain rfl : name = name' := String.toList_injective heq
    rfl
  have hblank : ∀ name ∈ all.map nameText, name ≠ [] := by
    intro name hname
    obtain ⟨n, -, rfl⟩ := List.mem_map.1 hname
    exact (nameText_ne n).1
  have hread : ∀ name ∈ readNames pattern, name ≠ [] ∧ name ≠ ['.'] ∧ name ≠ ['.', '.'] := by
    intro name hname
    obtain ⟨n, -, rfl⟩ := List.mem_map.1 (hstarts.literalSegments.subset hname)
    exact nameText_ne n
  have hcut := cut_prefix_iff hstarts hblank
  rw [← pieces_eq, ← hnames, List.prefix_map_iff_of_injective hinj, hnames] at hcut
  have hmap : (Path.ofNames names).components <+: (Path.ofNames all).components ↔ names <+: all :=
    ⟨ofNames_isPrefix, fun h => h.map _⟩
  rw [hmap, hcut]
  exact ⟨fun h _ => h, fun h => h hread⟩

/-! ## Outputs -/

/-- Some pattern has the whole package listed, or the names that are cut out of the patterns are no links,
and for the globs are names that they read. -/
def Sound (disk : Disk) (dir : Path) (patterns : List String) : Prop :=
  (∃ pattern ∈ patterns, isNegated pattern = false ∧ Unbounded pattern) ∨
    ∀ pattern ∈ patterns, isNegated pattern = false → CutLinkFree disk dir pattern ∧
      (classifyPattern pattern = .Wildcard → CutAsRead pattern)

theorem resolveOutputs_eq_whole (hlaws : ReadingLaws globs) (htree : TreeLaw disk dir)
    (hwhole : walkOutputCandidates disk dir = .ok candidates) (h : Sound disk dir patterns) :
    resolveOutputs disk globs dir patterns = wholeOutputs disk globs dir patterns := by
  cases hunion : prefixUnion patterns with
  | none =>
    rw [resolveOutputs, resolveOutputsWithOptions, hunion]
    rfl
  | some prefixes =>
    rcases h with ⟨pattern, hpattern, hpositive, hunbounded⟩ | h
    · rw [prefixUnion_unbounded hpattern hpositive hunbounded] at hunion
      cases hunion
    · obtain ⟨listed, hlist, hmem⟩ := listed_below htree hunion
        (fun pattern hpattern hpositive => (h pattern hpattern hpositive).1) hwhole
      have hpaths : resolvedPaths globs patterns listed = resolvedPaths globs patterns candidates := by
        refine resolvedPaths_congr hlaws.set_any ?_ (List.forall_mem_append.2 ⟨?_, ?_⟩)
        · rintro p ⟨q, hq, hmatch⟩
          obtain ⟨hq, hwildcard, hpositive⟩ := mem_globPatterns.1 hq
          rw [hmem]
          refine ⟨And.left, fun hp => ⟨hp, ?_⟩⟩
          obtain ⟨all, rfl, hstarts⟩ := matched_names hlaws htree hwhole hp hmatch
          have hbounded : ¬ Unbounded q := by
            intro hunbounded
            rw [prefixUnion_unbounded hq hpositive hunbounded] at hunion
            cases hunion
          obtain ⟨pre, hpre⟩ := exists_staticPrefix hbounded
          obtain ⟨-, names, rfl, hnames⟩ := staticPrefix_names hpre
          exact ⟨_, (mem_prefixUnion hunion).2 ⟨q, hq, hpositive, hpre⟩,
            (below_cut_iff hnames hstarts).2 ((h q hq hpositive).2 hwildcard)⟩
        · exact fun p => ofStr_toStr_candidate
            (fun l hl => Option.some.inj hl ▸ proper_prefixUnion hunion) hlist
        · exact fun p => ofStr_toStr_whole hwhole
      rw [resolveOutputs, resolveOutputsWithOptions, hunion, hlist, wholeOutputs, hwhole]
      show resolveWithCandidates _ _ _ _ _ listed = resolveWithCandidates _ _ _ _ _ candidates
      rw [resolveWithCandidates, resolveWithCandidates, hpaths]

/-- What one glob selects of a listing. -/
theorem resolve_one (hset : SetAny globs) (hpositive : isNegated pattern = false)
    (hwildcard : classifyPattern pattern = .Wildcard) (hcanonical : ∀ c ∈ candidates, Path.ofStr c.toStr = c)
    {prior : HashMap String FileEntry} {entries : List FileEntry}
    (h : resolveWithCandidates disk globs prior dir [pattern] candidates = .ok entries) :
    ∃ paths : List String, paths.Nodup ∧ entries.length = paths.length ∧
      ∀ t, t ∈ paths ↔ t ∈ candidates.map Path.toStr ∧ globMatches globs pattern t = true := by
  rw [resolveWithCandidates, if_neg (List.cons_ne_nil _ _)] at h
  obtain ⟨paths, hpaths, hmade⟩ := bind_eq_ok.1 h
  have hliteral : literalPaths [pattern] = [] := by simp [literalPaths, hpositive, hwildcard]
  have hglobs : globPatterns [pattern] = [pattern] := by simp [globPatterns, hpositive, hwildcard]
  have hbodies : exclusionBodies [pattern] = [] := by simp [exclusionBodies, hpositive]
  have hnamed : named globs [pattern] candidates =
      (candidates.map Path.toStr).filter fun text => globMatches globs pattern text := by
    rw [named, hliteral, hglobs]
    simp
  have htexts : paths = (spellings (named globs [pattern] candidates)).texts := by
    rw [resolvedPaths_eq hset hpaths, hbodies]
    simp
  have htext : ∀ t ∈ named globs [pattern] candidates, (Path.ofStr t).toStr = t := by
    intro t ht
    rw [hnamed] at ht
    obtain ⟨c, hc, rfl⟩ := List.mem_map.1 (List.mem_filter.1 ht).1
    rw [hcanonical c hc]
  refine ⟨paths, ?_, length_of_mapM hmade, fun t => ?_⟩
  · rw [htexts]
    exact (nodup_texts _).of_map _
  · rw [htexts, mem_texts_canonical htext, hnamed, List.mem_filter]

/-- One pattern whose cut names are not as read misses the files that it matches. -/
theorem cutAsRead_of_eq_whole (hlaws : ReadingLaws globs) (htree : TreeLaw disk dir)
    (hwhole : walkOutputCandidates disk dir = .ok candidates) (hpositive : isNegated pattern = false)
    (hwildcard : classifyPattern pattern = .Wildcard) (hfree : CutLinkFree disk dir pattern)
    {p : Path} (hp : p ∈ candidates) (hmatch : globMatches globs pattern p.toStr = true)
    {entries : List FileEntry} (hentries : wholeOutputs disk globs dir [pattern] = .ok entries)
    (heq : resolveOutputs disk globs dir [pattern] = wholeOutputs disk globs dir [pattern]) :
    Unbounded pattern ∨ CutAsRead pattern := by
  by_contra hnone
  rw [not_or] at hnone
  obtain ⟨pre, hpre⟩ := exists_staticPrefix hnone.1
  have hfilter : [pattern].filter (!isNegated ·) = [pattern] := by simp [hpositive]
  obtain ⟨prefixes, hunion⟩ : ∃ prefixes, prefixUnion [pattern] = some prefixes := by
    rw [prefixUnion, if_neg (List.cons_ne_nil _ _), hfilter, List.mapM_cons, hpre]
    exact ⟨_, rfl⟩
  obtain ⟨listed, hlist, hmem⟩ := listed_below htree hunion
    (fun q hq _ => List.mem_singleton.1 hq ▸ hfree) hwhole
  -- the file is not listed
  have hmissed : p ∉ listed := by
    rw [hmem]
    rintro ⟨-, pre', hpre', habove⟩
    obtain ⟨q, hq, -, hfront⟩ := (mem_prefixUnion hunion).1 hpre'
    rw [List.mem_singleton.1 hq] at hfront
    obtain ⟨-, names, rfl, hnames⟩ := staticPrefix_names hfront
    obtain ⟨all, rfl, hstarts⟩ := matched_names hlaws htree hwhole hp hmatch
    exact hnone.2 ((below_cut_iff hnames hstarts).1 habove)
  have hlisted : ∀ c ∈ listed, Path.ofStr c.toStr = c := fun c =>
    ofStr_toStr_candidate (fun l hl => Option.some.inj hl ▸ proper_prefixUnion hunion) hlist
  have hresolved := hentries
  rw [← heq, resolveOutputs, resolveOutputsWithOptions, hunion, hlist] at hresolved
  rw [wholeOutputs, hwhole] at hentries
  obtain ⟨paths, hnodup, hlength, hpaths⟩ := resolve_one hlaws.set_any hpositive hwildcard hlisted hresolved
  obtain ⟨paths', -, hlength', hpaths'⟩ := resolve_one hlaws.set_any hpositive hwildcard
    (fun c => ofStr_toStr_whole hwhole) hentries
  have hnot : p.toStr ∉ paths := by
    rw [hpaths]
    rintro ⟨hin, -⟩
    obtain ⟨c, hc, htext⟩ := List.mem_map.1 hin
    have hcp := hlisted c hc
    rw [htext, ofStr_toStr_whole hwhole hp] at hcp
    exact hmissed (hcp ▸ hc)
  have hsubset : p.toStr :: paths ⊆ paths' := by
    intro t ht
    rw [hpaths']
    rcases List.mem_cons.1 ht with rfl | ht
    · exact ⟨List.mem_map_of_mem hp, hmatch⟩
    · obtain ⟨hin, hglob⟩ := (hpaths t).1 ht
      obtain ⟨c, hc, rfl⟩ := List.mem_map.1 hin
      exact ⟨List.mem_map_of_mem ((hmem c).1 hc).1, hglob⟩
  have hle := (List.subperm_of_subset (List.nodup_cons.2 ⟨hnot, hnodup⟩) hsubset).length_le
  rw [List.length_cons] at hle
  omega

/-- Resolving outputs is matching the patterns against the whole package where the patterns are sound; and
a single pattern that matches a file has to be. -/
theorem resolveOutputs_correct (hlaws : ReadingLaws globs) (htree : TreeLaw disk dir)
    (hwhole : walkOutputCandidates disk dir = .ok candidates) :
    (∀ patterns, Sound disk dir patterns →
      resolveOutputs disk globs dir patterns = wholeOutputs disk globs dir patterns) ∧
    ∀ pattern, isNegated pattern = false → classifyPattern pattern = .Wildcard →
      CutLinkFree disk dir pattern → ∀ p ∈ candidates, globMatches globs pattern p.toStr = true →
      ∀ entries, wholeOutputs disk globs dir [pattern] = .ok entries →
      (resolveOutputs disk globs dir [pattern] = wholeOutputs disk globs dir [pattern] ↔
        Unbounded pattern ∨ CutAsRead pattern) := by
  refine ⟨fun patterns => resolveOutputs_eq_whole hlaws htree hwhole, ?_⟩
  intro pattern hpositive hwildcard hfree p hp hmatch entries hentries
  constructor
  · exact cutAsRead_of_eq_whole hlaws htree hwhole hpositive hwildcard hfree hp hmatch hentries
  · intro h
    refine resolveOutputs_eq_whole hlaws htree hwhole ?_
    rcases h with hunbounded | hread
    · exact .inl ⟨pattern, List.mem_singleton.2 rfl, hpositive, hunbounded⟩
    · refine .inr fun q hq _ => ?_
      rw [List.mem_singleton.1 hq]
      exact ⟨hfree, fun _ => hread⟩

/-! ## An escaped hyphen -/

theorem readingLaws_simpleGlobs : ReadingLaws Watch.simpleGlobs where
  set_any := Watch.setLaw_simpleGlobs
  literal pattern glob h text hmatch := by
    obtain rfl := Except.ok.inj h
    exact matchSegments_startsLiterally hmatch

theorem join_placeOf (base names : List FileName) :
    (placeOf base).join (.ofNames names) = placeOf (base ++ names) := by
  have hrelative : (Path.ofNames names).IsRelative :=
    ⟨names.map FileName.name, (List.map_map (f := FileName.name) (g := Component.normal)).symm⟩
  ext1
  rw [hrelative.join_components]
  exact congrArg (Component.rootDir :: ·) List.map_append.symm

theorem startsWith_placeOf {base names : List FileName} :
    (placeOf names).startsWith (placeOf base) = true ↔ base <+: names := by
  show List.isPrefixOf _ _ = true ↔ _
  rw [List.isPrefixOf_iff_prefix]
  constructor
  · exact fun h => ofNames_isPrefix (List.cons_prefix_cons.1 h).2
  · exact fun h => List.cons_prefix_cons.2 ⟨rfl, h.map _⟩

theorem mem_walk_packageDisk {files : List (List FileName)} {base more : List FileName}
    {fileType : Except CacheError FileType} :
    ⟨more, fileType⟩ ∈ (packageDisk files).walk (placeOf base) ↔
      fileType = .ok .file ∧ base ++ more ∈ files := by
  have hlength : (placeOf base).components.length - 1 = base.length := by
    show (base.map _).length + 1 - 1 = _
    rw [List.length_map, Nat.add_sub_cancel]
  show WalkEntry.mk more fileType ∈ (files.filter fun names => (placeOf names).startsWith (placeOf base)).map
    (fun names => WalkEntry.mk (names.drop ((placeOf base).components.length - 1)) (.ok .file)) ↔ _
  rw [hlength, List.mem_map]
  constructor
  · rintro ⟨names, hnames, heq⟩
    obtain ⟨hnames, hstarts⟩ := List.mem_filter.1 hnames
    obtain ⟨more', rfl⟩ := startsWith_placeOf.1 hstarts
    rw [List.drop_left] at heq
    obtain ⟨rfl, rfl⟩ := WalkEntry.mk.inj heq
    exact ⟨rfl, hnames⟩
  · rintro ⟨rfl, hnames⟩
    refine ⟨_, List.mem_filter.2 ⟨hnames, startsWith_placeOf.2 (List.prefix_append _ _)⟩, ?_⟩
    rw [List.drop_left]

theorem treeLaw_packageDisk {files : List (List FileName)} {base : List FileName} (h : base ∉ files) :
    TreeLaw (packageDisk files) (placeOf base) where
  directory hin := h (by simpa using (mem_walk_packageDisk.1 hin).2)
  below names _ _ more fileType := by
    rw [join_placeOf, mem_walk_packageDisk, mem_walk_packageDisk, List.append_assoc]
  present names more fileType hin := by
    have hmem := (mem_walk_packageDisk.1 hin).2
    have hnormal : (placeOf (base ++ names)).lexicalNormalize = placeOf (base ++ names) := by
      ext1
      refine NormalForm.foldl ⟨[.rootDir], 0, (base ++ names).map FileName.name, .inr rfl, ?_⟩
      rw [List.map_map]
      rfl
    have hany : (files.map placeOf).any (·.startsWith (placeOf (base ++ names)).lexicalNormalize) = true := by
      rw [hnormal]
      exact List.any_eq_true.2 ⟨_, List.mem_map_of_mem hmem,
        startsWith_placeOf.2 (List.append_assoc .. ▸ List.prefix_append _ _)⟩
    have hmetadata : (packageDisk files).metadata (placeOf (base ++ names)) = .ok (some ⟨1, 0⟩) :=
      congrArg Except.ok (if_pos hany)
    rw [join_placeOf, exists?, hmetadata]

def hyphenName : FileName := ⟨"a-b", by decide⟩

def hyphenFiles : List (List FileName) := [[repoName, appName, hyphenName, textName]]

/-- The escaped hyphen is taken for a separator, so that the directory `a` is listed instead of `a-b`. -/
theorem escaped_hyphen_missed :
    resolveOutputs (packageDisk hyphenFiles) Watch.simpleGlobs (.ofStr "/repo/app") ["a\\-b/*.txt"] = .ok [] ∧
      (wholeOutputs (packageDisk hyphenFiles) Watch.simpleGlobs (.ofStr "/repo/app")
        ["a\\-b/*.txt"]).toOption.map (·.map FileEntry.path) = some ["a-b/x.txt"] := by
  constructor <;> decide +kernel

def hyphenEntry : FileEntry := ⟨"a-b/x.txt", 1, 0, .replicate 32 1, false⟩

theorem resolveOutputs_correct_hyphen :
    resolveOutputs (packageDisk hyphenFiles) Watch.simpleGlobs (.ofStr "/repo/app") ["a-b/*.txt"] =
      wholeOutputs (packageDisk hyphenFiles) Watch.simpleGlobs (.ofStr "/repo/app") ["a-b/*.txt"] ∧
    (resolveOutputs (packageDisk hyphenFiles) Watch.simpleGlobs (.ofStr "/repo/app") ["a\\-b/*.txt"] =
      wholeOutputs (packageDisk hyphenFiles) Watch.simpleGlobs (.ofStr "/repo/app") ["a\\-b/*.txt"] ↔
        Unbounded "a\\-b/*.txt" ∨ CutAsRead "a\\-b/*.txt") := by
  have htree : TreeLaw (packageDisk hyphenFiles) (placeOf [repoName, appName]) :=
    treeLaw_packageDisk (by decide)
  have hlinks : ∀ names, ⟨names, .ok .other⟩ ∉ (packageDisk hyphenFiles).walk (placeOf [repoName, appName]) := by
    intro names h
    cases (mem_walk_packageDisk.1 h).1
  have hwhole : walkOutputCandidates (packageDisk hyphenFiles) (placeOf [repoName, appName]) =
      .ok [.ofStr "a-b/x.txt"] := by decide +kernel
  have hentries : wholeOutputs (packageDisk hyphenFiles) Watch.simpleGlobs (placeOf [repoName, appName])
      ["a\\-b/*.txt"] = .ok [hyphenEntry] := by decide +kernel
  have hplace : Path.ofStr "/repo/app" = placeOf [repoName, appName] := by decide +kernel
  rw [hplace]
  obtain ⟨hall, hone⟩ := resolveOutputs_correct readingLaws_simpleGlobs htree hwhole
  constructor
  · refine hall _ (.inr fun pattern hpattern _ => ?_)
    rw [List.mem_singleton.1 hpattern]
    exact ⟨fun names _ above _ _ => hlinks above, fun _ _ => by decide +kernel⟩
  · exact hone _ (by decide +kernel) (by decide +kernel) (fun names _ above _ _ => hlinks above) _
      (List.mem_singleton.2 rfl) (by decide +kernel) _ hentries

end Luchta.Proof.CacheFiles
