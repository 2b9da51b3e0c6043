import Luchta.Proof.CacheFiles.Archives
import Luchta.Proof.Resolve.Entries

/-!
# Published files and their spelling

* `Spelled`: how a path must be spelled for the archive to name it so.
* `isValid_of_spelled`, `spelled_of_isValid`: an archive of what is published is taken for what it is
  exactly if every path in it is spelled so.
-/

namespace Luchta.Proof.CacheFiles

open Luchta.Framework Luchta.Impl Luchta.Proof.Cache Luchta.Proof.Resolve

/-! ## Spelling -/

/-- How a selected path must be spelled: as the archive names it, and as no negated literal spells
it otherwise. -/
structure Spelled (patterns : List String) (text : String) : Prop where
  normal : (Path.ofStr text).lexicalNormalize.toStr = text
  slashes : '\\' ∉ text.toList
  negations : ∀ body ∈ exclusionBodies patterns, classifyPattern body = .Literal →
    Path.ofStr (unescapeLiteral body) ≠ Path.ofStr text

theorem lexicalNormalize_idem (p : Path) : p.lexicalNormalize.lexicalNormalize = p.lexicalNormalize :=
  Framework.Path.ext (lexicalNormalize_normalForm p).foldl

theorem normalize_of_toStr {text : String} (h : (Path.ofStr text).lexicalNormalize.toStr = text) :
    (Path.ofStr text).lexicalNormalize = .ofStr text := by
  rw [← ofStr_toStr_normalize, h]

theorem noBackslash_ofStr {text : String} (h : '\\' ∉ text.toList) :
    NoBackslash (Path.ofStr text).components := by
  intro c hc hmem
  exact h ((exists_mem_name_ofStr (by decide) (by decide)).1 ⟨c, hc, hmem⟩)

theorem noBackslash_toStr {p : Path} (h : NoBackslash p.components) : '\\' ∉ p.toStr.toList := by
  unfold Path.toStr
  split
  · rename_i rest heq
    rw [String.toList_ofList, List.mem_cons, not_or]
    refine ⟨by decide, NoBackslash.joinSlash fun c hc => h c ?_⟩
    rw [heq]
    exact List.mem_cons_of_mem _ hc
  · rw [String.toList_ofList]
    exact NoBackslash.joinSlash h

/-- Where a path has no backslash, the name that it is restored under has none. -/
theorem normalizePath_normalize {text : String} (h : '\\' ∉ text.toList) :
    normalizePath (Path.ofStr text).lexicalNormalize.toStr =
      (Path.ofStr text).lexicalNormalize.toStr := by
  refine normalizePath_of_noBackslash (noBackslash_toStr fun c hc => ?_)
  exact noBackslash_ofStr h c (mem_lexicalNormalize hc).1

/-! ## What is published is accepted -/

variable {disk : Disk} {globs : GlobLibrary} {blake3 : Bytes → Digest} {dir : Path}
  {patterns : List String} {entries : List FileEntry}

def relativePaths (entries : List FileEntry) : List Path :=
  (present entries).map fun entry => .ofStr entry.path

theorem isValid_iff {staged : StagedRestore} {stateHash : Digest} :
    stagedCacheFileBlobIsValid globs blake3 staged stateHash patterns = true ↔
      staged.relativeFilePaths ≠ [] ∧
        (∀ path ∈ staged.relativeFilePaths, pathMatchesPatterns globs patterns path = true) ∧
        staged.cacheFilesHash blake3 = stateHash := by
  simp [stagedCacheFileBlobIsValid, and_assoc]

/-- A path that is spelled well is accepted under its name. -/
theorem accepts_of_spelled {candidates : List Path} {t : String}
    (hselected : Selected globs patterns candidates t) (h : Spelled patterns t) :
    pathMatchesPatterns globs patterns (.ofStr t) = true := by
  have htext : (Path.ofStr t).toStr = t := by
    rw [← normalize_of_toStr h.normal, h.normal]
  refine (pathMatchesPatterns_iff _).2 ⟨(included_iff _).2 ?_, (not_excluded_iff _).2 ?_⟩
  · rcases List.mem_append.1 (List.mem_of_find?_eq_some hselected.first) with hliteral | hglob
    · exact .inl ⟨t, hliteral, rfl⟩
    · right
      rw [htext]
      exact List.any_eq_true.1 (List.mem_filter.1 hglob).2
  · intro body hbody
    refine ⟨h.negations body hbody, fun _ => ?_⟩
    rw [htext]
    exact hselected.not_excluded body hbody

section Published

variable (hlaws : GlobLaws globs) (hne : patterns ≠ [])
  (h : resolveOutputs disk globs dir patterns = .ok entries)

include hlaws hne h

theorem mem_relativePaths {rel : Path} : rel ∈ relativePaths entries ↔
    ∃ t f, Stored disk globs dir patterns t f ∧ rel = .ofStr (normalizePath t) := by
  rw [relativePaths, List.mem_map]
  constructor
  · rintro ⟨e, he, rfl⟩
    obtain ⟨t, f, mtime, hstored, rfl⟩ := present_origin hlaws hne h he
    exact ⟨t, f, hstored, rfl⟩
  · rintro ⟨t, f, hstored, rfl⟩
    obtain ⟨mtime, hmem⟩ := present_of_stored hlaws hne h hstored
    exact ⟨_, hmem, rfl⟩

/-- Where all is spelled well, the archive has every file under its spelling. -/
theorem archive_of_spelled
    (hspelled : ∀ t f, Stored disk globs dir patterns t f → Spelled patterns t) {k : Path}
    {f : StagedFile} : (archive disk dir (relativePaths entries)).get? k = some f ↔
      ∃ t, Stored disk globs dir patterns t f ∧ k = .ofStr t := by
  have hrel : ∀ rel, rel ∈ relativePaths entries ↔
      ∃ t f, Stored disk globs dir patterns t f ∧ rel = .ofStr t := by
    intro rel
    rw [mem_relativePaths hlaws hne h]
    refine exists₂_congr fun t f => and_congr_right fun hstored => ?_
    rw [normalizePath_of_noBackslash (hspelled t f hstored).slashes]
  have hnormal : ∀ rel ∈ relativePaths entries, rel.lexicalNormalize = rel := by
    intro rel hmem
    obtain ⟨t, f, hstored, rfl⟩ := (hrel rel).1 hmem
    exact normalize_of_toStr (hspelled t f hstored).normal
  rw [archive_get? fun rel hmem rel' hmem' heq => by
    rwa [hnormal rel hmem, hnormal rel' hmem'] at heq]
  constructor
  · rintro ⟨rel, hmem, rfl, hfile⟩
    obtain ⟨t, g, ⟨candidates, hcandidates, hselected, hg⟩, rfl⟩ := (hrel rel).1 hmem
    rw [hnormal _ hmem]
    exact ⟨t, ⟨candidates, hcandidates, hselected, hfile⟩, rfl⟩
  · rintro ⟨t, hstored, rfl⟩
    have hmem := (hrel _).2 ⟨t, f, hstored, rfl⟩
    obtain ⟨-, -, -, hfile⟩ := hstored
    exact ⟨_, hmem, hnormal _ hmem, hfile⟩

theorem pathsDistinct_present
    (hspelled : ∀ t f, Stored disk globs dir patterns t f → Spelled patterns t) :
    PathsDistinct (present entries) := by
  refine List.pairwise_map.2 ((pairwise_present hlaws hne h).imp ?_)
  rintro e e' ⟨t, t', f, f', hstored, hstored', he, he', hpath⟩ heq
  rw [he, he', normalizePath_of_noBackslash (hspelled t f hstored).slashes,
    normalizePath_of_noBackslash (hspelled t' f' hstored').slashes] at heq
  exact hpath (congrArg _ heq)

theorem keys_of_spelled
    (hspelled : ∀ t f, Stored disk globs dir patterns t f → Spelled patterns t) :
    sortedKeys (archive disk dir (relativePaths entries)).fileEntries =
      sortedKeys (present entries) := by
  have hget : ∀ {k f}, (archive disk dir (relativePaths entries)).get? k = some f ↔
      ∃ t, Stored disk globs dir patterns t f ∧ k = .ofStr t :=
    archive_of_spelled hlaws hne h hspelled
  have htext : ∀ {k f}, (archive disk dir (relativePaths entries)).get? k = some f →
      normalizePath k.toStr = k.toStr ∧ Path.ofStr k.toStr = k := by
    intro k f hk
    obtain ⟨t, hstored, rfl⟩ := hget.1 hk
    have hs := hspelled t f hstored
    rw [← normalize_of_toStr hs.normal]
    exact ⟨normalizePath_normalize hs.slashes, ofStr_toStr_normalize t⟩
  have hdistinct : PathsDistinct (archive disk dir (relativePaths entries)).fileEntries := by
    rw [PathsDistinct, StagedRestore.fileEntries, List.map_map]
    have hsorted := List.pairwise_map.1 (archive disk dir (relativePaths entries)).sorted
    refine List.pairwise_map.2 (hsorted.imp_of_mem ?_)
    intro a b ha hb hlt heq
    have hka := htext (BTreeMap.mem_entries_iff.1 ha)
    have hkb := htext (BTreeMap.mem_entries_iff.1 hb)
    have heq : normalizePath a.1.toStr = normalizePath b.1.toStr := heq
    rw [hka.1, hkb.1] at heq
    exact absurd (hka.2.symm.trans ((congrArg _ heq).trans hkb.2)) (ne_of_lt hlt)
  rw [sortedKeys_eq_iff hdistinct (pathsDistinct_present hlaws hne h hspelled)]
  intro k
  rw [mem_keys_present hlaws hne h, mem_keys_staged]
  constructor
  · rintro ⟨path, f, hk, rfl⟩
    obtain ⟨t, hstored, rfl⟩ := hget.1 hk
    have hs := hspelled t f hstored
    refine ⟨t, f, hstored, ?_⟩
    rw [← normalize_of_toStr hs.normal, hs.normal]
  · rintro ⟨t, f, hstored, rfl⟩
    have hs := hspelled t f hstored
    refine ⟨.ofStr t, f, hget.2 ⟨t, hstored, rfl⟩, ?_⟩
    rw [← normalize_of_toStr hs.normal, hs.normal]

/-- What is spelled well is accepted again. -/
theorem isValid_of_spelled (hpresent : present entries ≠ [])
    (hspelled : ∀ t f, Stored disk globs dir patterns t f → Spelled patterns t) :
    stagedCacheFileBlobIsValid globs blake3 (archive disk dir (relativePaths entries))
      (combinedCacheFilesHash blake3 (present entries)) patterns = true := by
  refine isValid_iff.2 ⟨?_, fun path hpath => ?_, ?_⟩
  · obtain ⟨e, he⟩ := List.exists_mem_of_ne_nil _ hpresent
    obtain ⟨t, f, -, hstored, -⟩ := present_origin hlaws hne h he
    have hmem := mem_relativeFilePaths.2 ⟨f, (archive_of_spelled hlaws hne h hspelled).2 ⟨t, hstored, rfl⟩⟩
    exact List.ne_nil_of_mem hmem
  · obtain ⟨f, hget⟩ := mem_relativeFilePaths.1 hpath
    obtain ⟨t, hstored, rfl⟩ := (archive_of_spelled hlaws hne h hspelled).1 hget
    have hs := hspelled t f hstored
    obtain ⟨candidates, -, hselected, -⟩ := hstored
    exact accepts_of_spelled hselected hs
  · rw [StagedRestore.cacheFilesHash, combinedCacheFilesHash, combinedEntriesHash,
      combinedEntriesStream_eq, keys_of_spelled hlaws hne h hspelled, ← combinedEntriesStream_eq]
    rfl

/-- The streams behind the published and the restored hash are read apart, and hashed apart. -/
structure HashedApart (blake3 : Bytes → Digest) (staged : StagedRestore) (entries : List FileEntry) :
    Prop where
  fits : EntriesFit entries
  fits_staged : EntriesFit staged.fileEntries
  no_collision : combinedCacheFilesHash blake3 staged.fileEntries =
    combinedCacheFilesHash blake3 entries →
      combinedEntriesStream COMBINED_CACHE_FILES_HASH_DOMAIN staged.fileEntries =
        combinedEntriesStream COMBINED_CACHE_FILES_HASH_DOMAIN entries

/-- What is accepted again was spelled well, backslashes apart. -/
theorem spelled_of_isValid
    (hslashes : ∀ t f, Stored disk globs dir patterns t f → '\\' ∉ t.toList)
    (hhash : HashedApart blake3 (archive disk dir (relativePaths entries)) (present entries))
    (hvalid : stagedCacheFileBlobIsValid globs blake3 (archive disk dir (relativePaths entries))
      (combinedCacheFilesHash blake3 (present entries)) patterns = true) {t : String} {f : StagedFile}
    (hstored : Stored disk globs dir patterns t f) : Spelled patterns t := by
  obtain ⟨-, haccepted, heq⟩ := isValid_iff.1 hvalid
  have hkeys := (combinedEntriesStream_iff hhash.fits_staged hhash.fits).1 (hhash.no_collision heq)
  -- the path of the entry is the name of a restored file
  have hkey : (normalizePath t, false, f.hash) ∈
      sortedKeys (archive disk dir (relativePaths entries)).fileEntries := by
    rw [hkeys, mem_sortedKeys]
    exact (mem_keys_present hlaws hne h).2 ⟨t, f, hstored, rfl⟩
  obtain ⟨k, g, hget, hname⟩ := mem_keys_staged.1 (mem_sortedKeys.1 hkey)
  obtain ⟨rel, hrel, hk, -⟩ := archive_origin hget
  obtain ⟨t', f', hstored', rfl⟩ := (mem_relativePaths hlaws hne h).1 hrel
  rw [normalizePath_of_noBackslash (hslashes t' f' hstored')] at hk
  subst hk
  have htext : (Path.ofStr t').lexicalNormalize.toStr = t := by
    have hname := (Prod.mk.inj hname).1
    rwa [normalizePath_normalize (hslashes t' f' hstored'),
      normalizePath_of_noBackslash (hslashes t f hstored)] at hname
  have hpath : Path.ofStr t = (Path.ofStr t').lexicalNormalize := by
    rw [← htext, ofStr_toStr_normalize]
  refine ⟨?_, hslashes t f hstored, fun body hbody hliteral => ?_⟩
  · rw [hpath, lexicalNormalize_idem, htext]
  · rw [hpath]
    have haccepted := haccepted _ (mem_relativeFilePaths.2 ⟨g, hget⟩)
    exact ((not_excluded_iff _).1 ((pathMatchesPatterns_iff _).1 haccepted).2 body hbody).1 hliteral

end Published

end Luchta.Proof.CacheFiles
