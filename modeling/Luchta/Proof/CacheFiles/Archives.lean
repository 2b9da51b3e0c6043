import Luchta.Proof.Cache.Streams
import Luchta.Proof.CacheFiles.Selection

/-!
# What is published, and what an archive of it restores

* `archive_get?`: the files of an archive, where no two of them have one normal form.
* `Stored`, `mem_keys_present`: what the hash of the published state is made of.
* `mem_keys_staged`: what the hash of the restored state is made of.
-/

namespace Luchta.Proof.CacheFiles

open Luchta.Framework Luchta.Impl Luchta.Proof.Cache

variable {disk : Disk} {dir : Path}

/-! ## Archives -/

/-- The file that is at a place, as an archive keeps it. -/
structure FileAt (disk : Disk) (place : Path) (file : StagedFile) : Prop where
  size : ∃ metadata, disk.metadata place = .ok (some metadata) ∧ metadata.len = file.size
  hash : disk.blake3File place = .ok file.hash

theorem FileAt.unique {place : Path} {f g : StagedFile} (hf : FileAt disk place f)
    (hg : FileAt disk place g) : f = g := by
  obtain ⟨⟨m, hm, hsize⟩, hhash⟩ := hf
  obtain ⟨⟨m', hm', hsize'⟩, hhash'⟩ := hg
  obtain rfl := Option.some.inj (Except.ok.inj (hm.symm.trans hm'))
  have hsame : f.size = g.size := hsize.symm.trans hsize'
  have hhashes : f.hash = g.hash := Except.ok.inj (hhash.symm.trans hhash')
  cases f
  cases g
  simp_all

theorem stageFile_of_file {staged : StagedRestore} {rel : Path} {f : StagedFile}
    (h : FileAt disk (dir.join rel) f) :
    stageFile disk dir staged rel = BTreeMap.insert staged rel.lexicalNormalize f := by
  obtain ⟨⟨m, hm, hsize⟩, hhash⟩ := h
  rw [stageFile, hm, hhash]
  show BTreeMap.insert staged rel.lexicalNormalize ⟨m.len, f.hash⟩ = _
  rw [hsize]

theorem stageFile_get? {staged : StagedRestore} {rel k : Path} {f : StagedFile}
    (h : (stageFile disk dir staged rel).get? k = some f) :
    staged.get? k = some f ∨ rel.lexicalNormalize = k ∧ FileAt disk (dir.join rel) f := by
  rw [stageFile] at h
  split at h
  · rename_i metadata hash hm hhash
    rw [BTreeMap.get?_insert] at h
    split at h
    · rename_i hk
      obtain rfl := Option.some.inj h
      exact .inr ⟨hk.symm, ⟨⟨metadata, hm, rfl⟩, hhash⟩⟩
    · exact .inl h
  · exact .inl h

/-- Whatever is restored was stored. -/
theorem archive_origin {rels : List Path} {k : Path} {f : StagedFile}
    (h : (archive disk dir rels).get? k = some f) :
    ∃ rel ∈ rels, rel.lexicalNormalize = k ∧ FileAt disk (dir.join rel) f := by
  have hfold : ∀ (rels : List Path) (staged : StagedRestore),
      (rels.foldl (stageFile disk dir) staged).get? k = some f → staged.get? k = some f ∨
        ∃ rel ∈ rels, rel.lexicalNormalize = k ∧ FileAt disk (dir.join rel) f := by
    intro rels
    induction rels with
    | nil => exact fun staged h => .inl h
    | cons rel rels ih =>
      intro staged h
      rcases ih _ h with h | ⟨rel', hrel', h⟩
      · rcases stageFile_get? h with h | h
        · exact .inl h
        · exact .inr ⟨rel, List.mem_cons_self, h⟩
      · exact .inr ⟨rel', List.mem_cons_of_mem _ hrel', h⟩
  exact (hfold rels .empty h).resolve_left nofun

/-- A name that is restored stays so when more is unpacked. -/
theorem stageFile_isSome {staged : StagedRestore} {k : Path} (rel : Path)
    (h : (staged.get? k).isSome) : ((stageFile disk dir staged rel).get? k).isSome := by
  rw [stageFile]
  split
  · rw [BTreeMap.get?_insert]
    split
    · rfl
    · exact h
  · exact h

theorem archive_isSome {rels : List Path} {rel : Path} {f : StagedFile} (hrel : rel ∈ rels)
    (h : FileAt disk (dir.join rel) f) :
    ((archive disk dir rels).get? rel.lexicalNormalize).isSome := by
  have hkeep : ∀ (rels : List Path) (staged : StagedRestore),
      (staged.get? rel.lexicalNormalize).isSome →
        ((rels.foldl (stageFile disk dir) staged).get? rel.lexicalNormalize).isSome := by
    intro rels
    induction rels with
    | nil => exact fun staged h => h
    | cons rel' rels ih => exact fun staged h => ih _ (stageFile_isSome rel' h)
  obtain ⟨before, after, rfl⟩ := List.append_of_mem hrel
  rw [archive, List.foldl_append, List.foldl_cons, stageFile_of_file h]
  refine hkeep after _ ?_
  rw [BTreeMap.get?_insert, if_pos rfl]
  rfl

/-- The files of an archive, where no two of them have one normal form. -/
theorem archive_get? {rels : List Path}
    (hinj : ∀ rel ∈ rels, ∀ rel' ∈ rels, rel.lexicalNormalize = rel'.lexicalNormalize → rel = rel')
    {k : Path} {f : StagedFile} : (archive disk dir rels).get? k = some f ↔
      ∃ rel ∈ rels, rel.lexicalNormalize = k ∧ FileAt disk (dir.join rel) f := by
  refine ⟨archive_origin, ?_⟩
  rintro ⟨rel, hrel, rfl, hf⟩
  obtain ⟨g, hg⟩ := Option.isSome_iff_exists.1 (archive_isSome hrel hf)
  obtain ⟨rel', hrel', heq, hg'⟩ := archive_origin hg
  obtain rfl := hinj rel' hrel' rel hrel heq
  rw [hg, hg'.unique hf]

/-! ## Entries -/

theorem qualify_nil (text : String) : qualifyRelativePath ⟨[]⟩ text = normalizePath text := by
  rw [qualifyRelativePath, if_pos (by rfl)]

/-- The entry of a path, without prior entries. -/
theorem fileEntry_cases {text : String} {e : FileEntry}
    (h : fileEntryFromPath disk (priorEntriesByPath []) ⟨dir, ⟨[]⟩⟩ text = .ok e) :
    (disk.metadata (dir.join (.ofStr text)) = .ok none ∧ e.absent = true) ∨
      ∃ f mtime, FileAt disk (dir.join (.ofStr text)) f ∧
        e = ⟨normalizePath text, f.size, mtime, f.hash, false⟩ := by
  obtain ⟨found, hfound, h⟩ := bind_eq_ok.1 h
  cases found with
  | none =>
    obtain rfl := Except.ok.inj h
    exact .inl ⟨hfound, rfl⟩
  | some metadata =>
    obtain ⟨hash, hhash, h⟩ := bind_eq_ok.1 h
    obtain rfl := Except.ok.inj h
    exact .inr ⟨⟨metadata.len, hash⟩, metadata.mtimeNs, ⟨⟨metadata, hfound, rfl⟩, hhash⟩,
      by rw [qualify_nil]⟩

variable {globs : GlobLibrary} {patterns : List String} {entries : List FileEntry}

/-- A selected path that a file is at. -/
def Stored (disk : Disk) (globs : GlobLibrary) (dir : Path) (patterns : List String) (text : String)
    (file : StagedFile) : Prop :=
  ∃ candidates, listOutputCandidates disk dir (prefixUnion patterns) = .ok candidates ∧
    Selected globs patterns candidates text ∧ FileAt disk (dir.join (.ofStr text)) file

def present (entries : List FileEntry) : List FileEntry := entries.filter (!·.absent)

/-- The selected paths, where resolving succeeds, and their entries. -/
theorem resolveOutputs_spec (hlaws : GlobLaws globs) (hne : patterns ≠ [])
    (h : resolveOutputs disk globs dir patterns = .ok entries) :
    ∃ (candidates : List Path) (paths : List String),
      listOutputCandidates disk dir (prefixUnion patterns) = .ok candidates ∧
      (∀ t, t ∈ paths ↔ Selected globs patterns candidates t) ∧ (paths.map Path.ofStr).Nodup ∧
      paths.mapM (fileEntryFromPath disk (priorEntriesByPath []) ⟨dir, ⟨[]⟩⟩) = .ok entries := by
  obtain ⟨candidates, hcandidates, h⟩ := bind_eq_ok.1 h
  rw [resolveWithCandidates, if_neg hne] at h
  obtain ⟨paths, hpaths, h⟩ := bind_eq_ok.1 h
  exact ⟨candidates, paths, hcandidates, fun t => mem_resolvedPaths hlaws hpaths,
    nodup_resolvedPaths hlaws hpaths, h⟩

theorem present_origin (hlaws : GlobLaws globs) (hne : patterns ≠ [])
    (h : resolveOutputs disk globs dir patterns = .ok entries) {e : FileEntry}
    (he : e ∈ present entries) : ∃ t f mtime, Stored disk globs dir patterns t f ∧
      e = ⟨normalizePath t, f.size, mtime, f.hash, false⟩ := by
  obtain ⟨candidates, paths, hcandidates, hpaths, -, hentries⟩ := resolveOutputs_spec hlaws hne h
  obtain ⟨he, hpresent⟩ := List.mem_filter.1 he
  obtain ⟨t, ht, hentry⟩ := (mem_mapM hentries).1 he
  rcases fileEntry_cases hentry with ⟨-, habsent⟩ | ⟨f, mtime, hf, rfl⟩
  · simp [habsent] at hpresent
  · exact ⟨t, f, mtime, ⟨candidates, hcandidates, (hpaths t).1 ht, hf⟩, rfl⟩

theorem present_of_stored (hlaws : GlobLaws globs) (hne : patterns ≠ [])
    (h : resolveOutputs disk globs dir patterns = .ok entries) {t : String} {f : StagedFile}
    (hstored : Stored disk globs dir patterns t f) :
    ∃ mtime, ⟨normalizePath t, f.size, mtime, f.hash, false⟩ ∈ present entries := by
  obtain ⟨candidates, paths, hcandidates, hpaths, -, hentries⟩ := resolveOutputs_spec hlaws hne h
  obtain ⟨candidates', hcandidates', hselected, hf⟩ := hstored
  obtain rfl := Except.ok.inj (hcandidates.symm.trans hcandidates')
  have ht := (hpaths t).2 hselected
  obtain ⟨e, he⟩ := exists_of_mapM hentries ht
  have hmem := (mem_mapM hentries).2 ⟨t, ht, he⟩
  rcases fileEntry_cases he with ⟨hnone, -⟩ | ⟨g, mtime, hg, rfl⟩
  · obtain ⟨⟨m, hm, -⟩, -⟩ := hf
    cases hnone.symm.trans hm
  · rw [hg.unique hf] at hmem
    exact ⟨mtime, List.mem_filter.2 ⟨hmem, rfl⟩⟩

/-- Two entries are those of two paths. -/
theorem pairwise_present (hlaws : GlobLaws globs) (hne : patterns ≠ [])
    (h : resolveOutputs disk globs dir patterns = .ok entries) :
    (present entries).Pairwise fun e e' =>
      ∃ t t' f f', Stored disk globs dir patterns t f ∧ Stored disk globs dir patterns t' f' ∧
        e.path = normalizePath t ∧ e'.path = normalizePath t' ∧ Path.ofStr t ≠ Path.ofStr t' := by
  obtain ⟨candidates, paths, hcandidates, hpaths, hnodup, hentries⟩ := resolveOutputs_spec hlaws hne h
  have hdistinct : paths.Pairwise fun t t' => Path.ofStr t ≠ Path.ofStr t' := List.pairwise_map.1 hnodup
  have hstored : ∀ t ∈ paths, ∀ e ∈ present entries,
      fileEntryFromPath disk (priorEntriesByPath []) ⟨dir, ⟨[]⟩⟩ t = .ok e →
        ∃ f, Stored disk globs dir patterns t f ∧ e.path = normalizePath t := by
    intro t ht e he hentry
    rcases fileEntry_cases hentry with ⟨-, habsent⟩ | ⟨f, mtime, hf, rfl⟩
    · simp [present, habsent] at he
    · exact ⟨f, ⟨candidates, hcandidates, (hpaths t).1 ht, hf⟩, rfl⟩
  refine ((pairwise_mapM hentries hdistinct).sublist List.filter_sublist).imp_of_mem ?_
  rintro e e' hmem hmem' ⟨t, ht, t', ht', he, he', hpath⟩
  obtain ⟨f, hf, hpathe⟩ := hstored t ht e hmem he
  obtain ⟨f', hf', hpathe'⟩ := hstored t' ht' e' hmem' he'
  exact ⟨t, t', f, f', hf, hf', hpathe, hpathe', hpath⟩

/-! ## Hashes -/

theorem mem_keys_present (hlaws : GlobLaws globs) (hne : patterns ≠ [])
    (h : resolveOutputs disk globs dir patterns = .ok entries) {k : String × Bool × Digest} :
    (∃ e ∈ present entries, entryKey e = k) ↔
      ∃ t f, Stored disk globs dir patterns t f ∧ (normalizePath t, false, f.hash) = k := by
  constructor
  · rintro ⟨e, he, rfl⟩
    obtain ⟨t, f, mtime, hstored, rfl⟩ := present_origin hlaws hne h he
    exact ⟨t, f, hstored, rfl⟩
  · rintro ⟨t, f, hstored, rfl⟩
    obtain ⟨mtime, hmem⟩ := present_of_stored hlaws hne h hstored
    exact ⟨_, hmem, rfl⟩

theorem mem_keys_staged {staged : StagedRestore} {k : String × Bool × Digest} :
    (∃ e ∈ staged.fileEntries, entryKey e = k) ↔
      ∃ path f, staged.get? path = some f ∧ (normalizePath path.toStr, false, f.hash) = k := by
  rw [StagedRestore.fileEntries]
  constructor
  · rintro ⟨e, he, rfl⟩
    obtain ⟨⟨path, f⟩, hmem, rfl⟩ := List.mem_map.1 he
    exact ⟨path, f, BTreeMap.mem_entries_iff.1 hmem, rfl⟩
  · rintro ⟨path, f, hget, rfl⟩
    exact ⟨_, List.mem_map.2 ⟨(path, f), BTreeMap.mem_entries_iff.2 hget, rfl⟩, rfl⟩

theorem mem_relativeFilePaths {staged : StagedRestore} {path : Path} :
    path ∈ staged.relativeFilePaths ↔ ∃ f, staged.get? path = some f := BTreeMap.mem_keys_iff

end Luchta.Proof.CacheFiles
