import Luchta.Proof.Blob.Restore

/-!
# Archiving and restoring

* `collect_spec`: the files that are archived.
* `extract_written`: what was archived can be unpacked.
* `restore_written`: a package that was archived is restored, wherever nothing is in the way.
-/

namespace Luchta.Proof.Blob

open Luchta.Framework Luchta.Impl Luchta.Impl.Blob

variable {package : Dir File} {paths : List (List FileName)} {files : List (List FileName × File)}
  {packageDir : Path} {sizeCapBytes total : Nat} {p q : List String}

/-! ## What is archived -/

/-- The sizes of the files, added up one after the other, stay within the cap. -/
def FitsCap (cap : Nat) : Nat → List (List FileName × File) → Prop
  | _, [] => True
  | total, source :: sources =>
    saturatingAdd total source.2.content.length ≤ cap ∧
      FitsCap cap (saturatingAdd total source.2.content.length) sources

theorem FitsCap.mono {cap cap' : Nat} (hle : cap ≤ cap') (h : FitsCap cap total files) : FitsCap cap' total files := by
  induction files generalizing total with
  | nil => trivial
  | cons source sources ih => exact ⟨h.1.trans hle, ih h.2⟩

theorem metadata_eq_some {node : Node File} :
    metadata package p = .ok (some node) ↔ package.entry p = some node := by
  unfold metadata
  split
  · rename_i h
    rw [h]
    simp
  · rename_i h
    rw [h]
    split <;> simp

/-- What is archived are the files among the paths. -/
theorem collect_spec (h : collectBlobSourceFiles package sizeCapBytes total paths = .ok (.ok files)) :
    FitsCap sizeCapBytes total files ∧
      (∀ source ∈ files, source.1 ∈ paths ∧ package.entry (pathNames source.1) = some (.file source.2)) ∧
      ∀ path ∈ paths, ∀ x, package.entry (pathNames path) = some (.file x) → (path, x) ∈ files := by
  induction paths generalizing total files with
  | nil =>
    rw [collectBlobSourceFiles] at h
    cases h
    exact ⟨trivial, fun _ hmem => (by cases hmem), fun _ hmem => (by cases hmem)⟩
  | cons path paths ih =>
    rw [collectBlobSourceFiles] at h
    have hskip : (∀ x, package.entry (pathNames path) ≠ some (.file x)) →
        collectBlobSourceFiles package sizeCapBytes total paths = .ok (.ok files) →
        FitsCap sizeCapBytes total files ∧
          (∀ source ∈ files, source.1 ∈ path :: paths ∧
            package.entry (pathNames source.1) = some (.file source.2)) ∧
          ∀ path' ∈ path :: paths, ∀ x, package.entry (pathNames path') = some (.file x) → (path', x) ∈ files := by
      intro hnot h
      obtain ⟨hfits, hsources, hall⟩ := ih h
      refine ⟨hfits, fun source hmem => ?_, fun path' hmem x hx => ?_⟩
      · exact ⟨List.mem_cons_of_mem _ (hsources source hmem).1, (hsources source hmem).2⟩
      · rcases List.mem_cons.1 hmem with rfl | hmem
        · exact absurd hx (hnot x)
        · exact hall path' hmem x hx
    split at h
    · cases h
    · rename_i hnone
      refine hskip (fun x hx => ?_) h
      rw [metadata_eq_some.2 hx] at hnone
      cases hnone
    · rename_i hdir
      refine hskip (fun x hx => ?_) h
      rw [metadata_eq_some.2 hx] at hdir
      cases hdir
    · rename_i file hfile
      rw [metadata_eq_some] at hfile
      dsimp only at h
      split at h
      · cases h
      · rename_i hle
        obtain ⟨y, hy, hmap⟩ := map_eq_ok.1 h
        obtain ⟨files', rfl, rfl⟩ := map_eq_ok.1 hmap
        obtain ⟨hfits, hsources, hall⟩ := ih hy
        refine ⟨⟨Nat.not_lt.1 hle, hfits⟩, fun source hmem => ?_, fun path' hmem x hx => ?_⟩
        · rcases List.mem_cons.1 hmem with rfl | hmem
          · exact ⟨List.mem_cons_self, hfile⟩
          · exact ⟨List.mem_cons_of_mem _ (hsources source hmem).1, (hsources source hmem).2⟩
        · rcases List.mem_cons.1 hmem with rfl | hmem
          · rw [hfile] at hx
            cases hx
            exact List.mem_cons_self
          · exact List.mem_cons_of_mem _ (hall path' hmem x hx)

/-! ## Entries -/

theorem place_tarEntry (source : List FileName × File) :
    place (tarEntry source).path = some (pathNames source.1) := by
  have hcomponents : (Path.ofNames source.1).components = (pathNames source.1).map .normal := by
    simp [Path.ofNames, pathNames, Function.comp_def, FileName.component]
  have hdescent := descent_normal 0 (pathNames source.1)
  rw [List.replicate_zero, List.nil_append] at hdescent
  have habs : (Path.ofNames source.1).isAbsolute = false := by
    unfold Path.isAbsolute
    rw [hcomponents]
    cases pathNames source.1 <;> simp
  unfold place
  rw [tarEntry, ofStr_toStr_ofNames]
  simp [habs, hcomponents, hdescent]

/-- A path below the directory of old metadata. -/
theorem ofStr_meta (rest : List Char) :
    (Path.ofStr (String.ofList (META_DIR_NAME.toList ++ '/' :: rest))).components =
      .normal META_DIR_NAME :: (splitSlash rest).filterMap Component.ofPart := by
  have hsplit : splitSlash (META_DIR_NAME.toList ++ '/' :: rest) = META_DIR_NAME.toList :: splitSlash rest :=
    splitSlash_append (by decide) rest
  have hname : META_DIR_NAME.toList ≠ ['.'] := by decide
  have hpart : Component.ofPart META_DIR_NAME.toList = some (.normal META_DIR_NAME) := by decide
  rw [ofStr_ofList (by simp [META_DIR_NAME]) (by simpa [hsplit] using hname), hsplit]
  exact List.filterMap_cons_some hpart

theorem isMeta_tarEntry {source : List FileName × File} (h : META_DIR_NAME ∉ pathNames source.1) :
    IsMeta (tarEntry source) = false := by
  refine Bool.eq_false_iff.2 fun hmeta => h ?_
  obtain ⟨rest, hrest⟩ := List.isPrefixOf_iff_prefix.1 hmeta
  have htext : (Path.ofNames source.1).toStr = String.ofList (META_DIR_NAME.toList ++ '/' :: rest) := by
    rw [← String.toList_inj, String.toList_ofList, ← show _ = (Path.ofNames source.1).toStr.toList from hrest]
    simp
  have hnames := congrArg Path.components (ofStr_toStr_ofNames source.1)
  rw [htext, ofStr_meta] at hnames
  cases hsource : source.1 with
  | nil =>
    rw [hsource] at hnames
    cases hnames
  | cons name names =>
    rw [hsource] at hnames
    have hname : META_DIR_NAME = name.name := by
      injection hnames with hhead
      exact Component.normal.inj hhead
    simp [pathNames, hname]

/-! ## Unpacking what was archived -/

/-- What is unpacked stands where the archived files are, and above them. -/
structure Unpacked (files : List (List FileName × File)) (staging : Dir File) : Prop where
  distinct : staging.Distinct
  file : ∀ p x, staging.entry p = some (.file x) → ∃ source ∈ files, p = pathNames source.1
  dir : ∀ p, staging.entry p = some .dir →
    p = [] ∨ ∃ source ∈ files, p <+: pathNames source.1 ∧ p ≠ pathNames source.1

/-- The archived files, as one directory holds them. -/
def Archived (package : Dir File) (files : List (List FileName × File)) : Prop :=
  ∀ source ∈ files, package.entry (pathNames source.1) = some (.file source.2)

theorem Unpacked.dir_of_package {staging : Dir File} (h : Unpacked files staging) (hf : Archived package files)
    (hp : staging.entry p = some .dir) : package.entry p = some .dir := by
  rcases h.dir p hp with rfl | ⟨source, hsource, hpre, hne⟩
  · exact Dir.entry_root package
  · exact Dir.entry_prefix (by simp [hf source hsource]) hpre hne

theorem Unpacked.file_of_package {staging : Dir File} {x : File} (h : Unpacked files staging)
    (hf : Archived package files) (hp : staging.entry p = some (.file x)) : package.entry p ≠ some .dir := by
  obtain ⟨source, hsource, rfl⟩ := h.file p x hp
  simp [hf source hsource]

theorem Unpacked.put {staging above staging' : Dir File} {source : List FileName × File} {x : File}
    (h : Unpacked files staging) (hsource : source ∈ files)
    (habove : staging.createDirAll (pathNames source.1).dropLast = some above)
    (hput : above.put (pathNames source.1) x = some staging') (hne : pathNames source.1 ≠ []) :
    Unpacked files staging' where
  distinct := (h.distinct.createDirAll habove).put hput
  file p y hp := by
    rw [Dir.entry_put hput] at hp
    split at hp
    · rename_i he
      exact ⟨source, hsource, he⟩
    · exact h.file p y ((Dir.file_createDirAll habove).1 hp)
  dir p hp := by
    rw [Dir.dir_put hput, Dir.entry_createDirAll habove] at hp
    split at hp
    · rename_i hpre
      refine .inr ⟨source, hsource, hpre.trans (List.dropLast_prefix _), fun he => ?_⟩
      have hlength := hpre.length_le
      rw [he, List.length_dropLast] at hlength
      have hpos := List.length_pos_iff.2 hne
      omega
    · exact h.dir p hp

theorem capture_of_not_meta {metaFiles : ExtractedMetaFiles} {e : TarEntry} (h : IsMeta e = false) :
    metaFiles.capture e = .ok (false, metaFiles) := by
  rw [ExtractedMetaFiles.capture, if_pos]
  simpa [IsMeta] using h

/-- An entry of an archived file can be unpacked. -/
theorem extractEntry_tarEntry (packageDir : Path) {cap : Option Nat} {s : Extraction} {source : List FileName × File}
    (hf : Archived package files) (hsource : source ∈ files) (hmeta : META_DIR_NAME ∉ pathNames source.1)
    (h : Unpacked files s.staging)
    (hcap : ∀ c, cap = some c → saturatingAdd s.outputBytes source.2.content.length ≤ c) :
    ∃ t, extractEntry packageDir cap s (some (tarEntry source)) = .ok t ∧ Unpacked files t.staging ∧
      t.outputBytes = saturatingAdd s.outputBytes source.2.content.length := by
  have hfile := hf source hsource
  have hne : pathNames source.1 ≠ [] := by
    intro he
    rw [he, Dir.entry_root] at hfile
    cases hfile
  obtain ⟨above, habove⟩ : ∃ above, s.staging.createDirAll (pathNames source.1).dropLast = some above := by
    refine Dir.exists_createDirAll fun q hq x hx => ?_
    refine h.file_of_package hf hx (Dir.entry_prefix (by simp [hfile]) (hq.trans (List.dropLast_prefix _)) ?_)
    rintro rfl
    have hlength := hq.length_le
    have hpos := List.length_pos_iff.2 hne
    rw [List.length_dropLast] at hlength
    omega
  obtain ⟨staging, hput⟩ : ∃ staging,
      above.put (pathNames source.1) ⟨source.2.content, tarEntryMode source.2⟩ = some staging := by
    refine Dir.exists_put hne (by simp [Dir.entry_createDirAll habove]) fun hd => ?_
    rw [Dir.entry_createDirAll habove] at hd
    split at hd
    · rename_i hpre
      have hlength := hpre.length_le
      have hpos := List.length_pos_iff.2 hne
      rw [List.length_dropLast] at hlength
      omega
    · rw [h.dir_of_package hf hd] at hfile
      cases hfile
  have hbytes : addExtractedOutputBytes s.outputBytes (tarEntry source).content.length cap =
      .ok (saturatingAdd s.outputBytes source.2.content.length) := by
    rw [addExtractedOutputBytes, if_neg]
    · rfl
    · cases cap with
      | none => simp
      | some c => simpa [tarEntry] using hcap c rfl
  refine ⟨⟨staging, s.metaFiles, saturatingAdd s.outputBytes source.2.content.length⟩, ?_, h.put hsource habove hput hne,
    rfl⟩
  rw [extractEntry, capture_of_not_meta (isMeta_tarEntry hmeta)]
  show unpackEntry packageDir cap s (tarEntry source) = _
  rw [unpackEntry, validateEntryPath_eq, place_tarEntry]
  show (do
    let outputBytes ← addExtractedOutputBytes s.outputBytes (tarEntry source).content.length cap
    let staging ← refused (s.staging.createDirAll (Path.names ⟨(pathNames source.1).map .normal⟩).dropLast)
    let staging ← refused (staging.put (Path.names ⟨(pathNames source.1).map .normal⟩)
      ⟨(tarEntry source).content, (tarEntry source).mode⟩)
    return ({ s with staging := staging, outputBytes := outputBytes } : Extraction)) = _
  rw [hbytes, names_map_normal, habove]
  show (do
    let staging ← refused (above.put (pathNames source.1) ⟨source.2.content, tarEntryMode source.2⟩)
    return (⟨staging, s.metaFiles, saturatingAdd s.outputBytes source.2.content.length⟩ : Extraction)) = _
  rw [hput]
  rfl

/-- What was archived can be unpacked. -/
theorem extract_written (packageDir : Path) {cap : Option Nat} {sources : List (List FileName × File)} (hf : Archived package files)
    (hmeta : ∀ source ∈ files, META_DIR_NAME ∉ pathNames source.1) (hsources : sources ⊆ files) {s : Extraction}
    (h : Unpacked files s.staging) (hcap : ∀ c, cap = some c → FitsCap c s.outputBytes sources) :
    ∃ t, (sources.map (some ∘ tarEntry)).foldlM (extractEntry packageDir cap) s = .ok t ∧
      Unpacked files t.staging := by
  induction sources generalizing s with
  | nil => exact ⟨s, rfl, h⟩
  | cons source sources ih =>
    rw [List.cons_subset] at hsources
    obtain ⟨t, ht, hunpacked, hbytes⟩ := extractEntry_tarEntry packageDir hf hsources.1
      (hmeta source hsources.1) h fun c hc => (hcap c hc).1
    obtain ⟨u, hu, hdone⟩ := ih hsources.2 hunpacked fun c hc => hbytes ▸ (hcap c hc).2
    refine ⟨u, ?_, hdone⟩
    rw [List.map_cons, List.foldlM_cons]
    show (extractEntry packageDir cap s (some (tarEntry source)) >>= _) = _
    rw [ht]
    exact hu

/-! ## The round trip -/

/-- A file as it is unpacked. -/
def restored (x : File) : File := ⟨x.content, tarEntryMode x⟩

theorem unpacked_tarEntry {source : List FileName × File} (hmeta : META_DIR_NAME ∉ pathNames source.1)
    (found : Option File) : unpacked p found (some (tarEntry source)) =
      if pathNames source.1 = p then some (restored source.2) else found := by
  have htype : (tarEntry source).entryType = .file := rfl
  simp only [unpacked, isMeta_tarEntry hmeta, place_tarEntry, htype, Option.some.injEq]
  simp [tarEntry, restored]

/-- The last file of an archive is the one that was archived. -/
theorem lastFile_written {sources : List (List FileName × File)} (hf : Archived package sources)
    (hmeta : ∀ source ∈ sources, META_DIR_NAME ∉ pathNames source.1) (found : Option File) :
    (sources.map (some ∘ tarEntry)).foldl (unpacked p) found =
      if p ∈ sources.map (pathNames ·.1) then (fileAt package p).map restored else found := by
  induction sources generalizing found with
  | nil => rfl
  | cons source sources ih =>
    have hsource : fileAt package (pathNames source.1) = some source.2 :=
      fileAt_eq_some.2 (hf source List.mem_cons_self)
    rw [List.map_cons, List.foldl_cons, ih (fun s hs => hf s (List.mem_cons_of_mem _ hs))
      fun s hs => hmeta s (List.mem_cons_of_mem _ hs), Function.comp_apply,
      unpacked_tarEntry (hmeta source List.mem_cons_self), List.map_cons]
    by_cases hp : pathNames source.1 = p
    · subst hp
      simp [hsource]
    · exact (if_neg hp).symm ▸ if_congr (List.mem_cons.trans (or_iff_right (Ne.symm hp))).symm rfl rfl

theorem written_eq {β : Type*} {write : List TarEntry → β} {blob : β}
    (h : writeFileBlob write none package paths sizeCapBytes = .ok (.Written, some blob)) :
    ∃ files, collectBlobSourceFiles package sizeCapBytes 0 paths = .ok (.ok files) ∧
      blob = write (files.map tarEntry) := by
  rw [writeFileBlob, if_neg (by simp)] at h
  split at h
  · cases h
  · cases h
  · cases h
  · rename_i files _ hfiles
    have hblob := (Prod.mk.inj (Except.ok.inj h)).2
    exact ⟨files, hfiles, (Option.some.inj hblob).symm⟩

section Written

variable {β : Type*} {write : List TarEntry → β} {read : β → List (Option TarEntry)} {blob : β} {cap : Option Nat}

/-- What was archived is unpacked, and nothing else. -/
theorem unpack_written (hread : ∀ entries, read (write entries) = entries.map some)
    (h : writeFileBlob write none package paths sizeCapBytes = .ok (.Written, some blob))
    (hmeta : ∀ path ∈ paths, META_DIR_NAME ∉ pathNames path) (packageDir : Path)
    (hcap : ∀ c, cap = some c → sizeCapBytes ≤ c) :
    ∃ staged files, restoreFileBlobStaged packageDir cap read (some blob) = .ok (.Restored staged) ∧
      Unpacked files staged.staging ∧
      (∀ source ∈ files, source.1 ∈ paths ∧ package.entry (pathNames source.1) = some (.file source.2)) ∧
      ∀ p x, staged.staging.entry p = some (.file x) ↔
        ∃ path ∈ paths, pathNames path = p ∧ ∃ y, package.entry p = some (.file y) ∧ restored y = x := by
  obtain ⟨files, hcollect, rfl⟩ := written_eq h
  obtain ⟨hfits, hsources, hall⟩ := collect_spec hcollect
  have hf : Archived package files := fun source hsource => (hsources source hsource).2
  have hmetaFiles : ∀ source ∈ files, META_DIR_NAME ∉ pathNames source.1 :=
    fun source hsource => hmeta _ (hsources source hsource).1
  have hempty : Unpacked files .nil := by
    refine ⟨trivial, fun p x hp => ?_, fun p hp => .inl ?_⟩
    · cases p <;> simp [Dir.entry] at hp
    · cases p <;> simp_all [Dir.entry]
  obtain ⟨staged, hextract, hunpacked⟩ := extract_written packageDir (s := ⟨.nil, .default, 0⟩) hf
    hmetaFiles (List.Subset.refl files) hempty fun c hc => hfits.mono (hcap c hc)
  refine ⟨staged, files, ?_, hunpacked, hsources, fun p x => ?_⟩
  · rw [restoreFileBlobStaged, hread, List.map_map, extractBlobWithMetaToStaging, hextract]
  have hnone : fileAt (.nil : Dir File) p = none := by cases p <;> rfl
  rw [← fileAt_eq_some, (extract_spec hextract trivial).2.2, lastFile_written hf hmetaFiles]
  have hmem : p ∈ files.map (pathNames ·.1) ↔
      ∃ path ∈ paths, pathNames path = p ∧ ∃ y, package.entry p = some (.file y) := by
    rw [List.mem_map]
    constructor
    · rintro ⟨source, hsource, rfl⟩
      exact ⟨source.1, (hsources source hsource).1, rfl, source.2, hf source hsource⟩
    · rintro ⟨path, hpath, rfl, y, hy⟩
      exact ⟨(path, y), hall path hpath y hy, rfl⟩
  split
  · rename_i hp
    obtain ⟨path, hpath, rfl, -⟩ := hmem.1 hp
    rw [Option.map_eq_some_iff]
    simp only [fileAt_eq_some]
    exact ⟨fun ⟨y, hy, hx⟩ => ⟨path, hpath, rfl, y, hy, hx⟩, fun ⟨_, _, _, y, hy, hx⟩ => ⟨y, hy, hx⟩⟩
  · rename_i hp
    rw [hnone]
    refine ⟨fun hx => (by cases hx), fun ⟨path, hpath, hnames, y, hy, _⟩ => ?_⟩
    exact absurd (hmem.2 ⟨path, hpath, hnames, y, hy⟩) hp

/-- Moving what was unpacked brings the archived files back, where nothing is in the way. -/
theorem commit_written (hread : ∀ entries, read (write entries) = entries.map some)
    (h : writeFileBlob write none package paths sizeCapBytes = .ok (.Written, some blob))
    (hmeta : ∀ path ∈ paths, META_DIR_NAME ∉ pathNames path) (hcap : ∀ c, cap = some c → sizeCapBytes ≤ c)
    {staged : Extraction} (hrestored : restoreFileBlobStaged packageDir cap read (some blob) = .ok (.Restored staged))
    {target : Dir File} (htarget : ∀ path ∈ paths, ∀ x, package.entry (pathNames path) = some (.file x) →
      target.entry (pathNames path) ≠ some .dir ∧
      ∀ p, p <+: pathNames path → p ≠ pathNames path → ∀ y, target.entry p ≠ some (.file y)) :
    (commit staged target).failed = false ∧
    (∀ q, q ∈ (commit staged target).writtenPaths ↔
      ∃ path ∈ paths, pathNames path = q ∧ ∃ x, package.entry q = some (.file x)) ∧
    (∀ q ∈ (commit staged target).writtenPaths, ∀ x, package.entry q = some (.file x) →
      (commit staged target).package.entry q = some (.file ⟨x.content, x.mode &&& 0o777⟩)) ∧
    ∀ q, q ∉ (commit staged target).writtenPaths → ∀ x,
      (commit staged target).package.entry q = some (.file x) ↔ target.entry q = some (.file x) := by
  obtain ⟨_, files, hsame, hunpacked, hsources, hstaged⟩ := unpack_written hread h hmeta packageDir hcap
  obtain rfl := ReadResult.Restored.inj (Except.ok.inj (hrestored.symm.trans hsame))
  have hspec : MoveSpec staged.staging [] target (commit staged target) :=
    moveSpec hunpacked.distinct (Dir.entry_root target)
  have hmovable : Movable staged.staging [] target := by
    refine ⟨fun p x hp => ?_, fun p hp x => ?_, fun p hp hmem => ?_⟩
    · obtain ⟨source, hsource, rfl⟩ := hunpacked.file p x hp
      exact (htarget _ (hsources source hsource).1 _ (hsources source hsource).2).1
    · rcases hunpacked.dir p hp with rfl | ⟨source, hsource, hpre, hne⟩
      · simp
      · exact (htarget _ (hsources source hsource).1 _ (hsources source hsource).2).2 p hpre hne x
    · cases hentry : staged.staging.entry p with
      | none => exact hp hentry
      | some node =>
        cases node with
        | file x =>
          obtain ⟨source, hsource, rfl⟩ := hunpacked.file p x hentry
          exact hmeta _ (hsources source hsource).1 hmem
        | dir =>
          rcases hunpacked.dir p hentry with rfl | ⟨source, hsource, hpre, -⟩
          · cases hmem
          · exact hmeta _ (hsources source hsource).1 (hpre.subset hmem)
  have hok := (move_succeeds hunpacked.distinct (Dir.entry_root target) hmovable).1
  have hwritten : ∀ q, q ∈ (commit staged target).writtenPaths → ∃ x, staged.staging.entry q = some (.file x) ∧
      (commit staged target).package.entry q = some (.file x) := by
    intro q hq
    obtain ⟨p, x, rfl, hp, -, hx⟩ := hspec.written q hq
    exact ⟨x, hp, hx⟩
  refine ⟨hok, fun q => ⟨fun hq => ?_, ?_⟩, fun q hq x hx => ?_, hspec.kept⟩
  · obtain ⟨x, hstage, -⟩ := hwritten q hq
    obtain ⟨path, hpath, hnames, y, hy, -⟩ := (hstaged q x).1 hstage
    exact ⟨path, hpath, hnames, y, hy⟩
  · rintro ⟨path, hpath, rfl, x, hx⟩
    exact hspec.all hok _ (restored x) (hmeta path hpath) ((hstaged _ _).2 ⟨path, hpath, rfl, x, hx, rfl⟩)
  · obtain ⟨y, hstage, hy⟩ := hwritten q hq
    obtain ⟨-, -, -, z, hz, rfl⟩ := (hstaged q y).1 hstage
    rw [hx] at hz
    obtain rfl := Node.file.inj (Option.some.inj hz)
    exact hy

end Written

/-- A built file that may be executed, beside one that is not archived. -/
def builtPackage : Dir File :=
  .dir "dist" (.file "app.js" ⟨[1, 2, 3], 0o100755⟩ .nil) (.file "src.ts" ⟨[4], 0o644⟩ .nil)

def builtPath : List FileName := [⟨"dist", by decide⟩, ⟨"app.js", by decide⟩]

def builtArchive : List (Option TarEntry) := [some ⟨"dist/app.js", .file, 0o755, [1, 2, 3]⟩]

end Luchta.Proof.Blob
