import Luchta.Proof.Resolve.Expansion

/-!
# Entries and the places they stand for

Entries carry paths relative to the worktree root. Where names are plain, such a path names one
place, and deduplication drops no place.

* `ofStr_qualify`: the path of an entry, read again, is its prefix and then its relative path.
* `exists_entry_dedupe`: deduplication keeps an entry for every place.
-/

namespace Luchta.Proof.Resolve

open Luchta.Framework Luchta.Impl

/-- No name contains the character that the paths of entries replace by a slash. -/
def NoBackslash (l : List Component) : Prop := ∀ c ∈ l, '\\' ∉ c.name.toList

/-- The path of the entry, from the worktree root on, is the path. -/
def EntryFor (root p : Path) (entry : FileEntry) : Prop :=
  p.stripPrefix root = some (.ofStr entry.path)

/-! ## Text without backslashes -/

theorem mem_joinSlash {parts : List (List Char)} {ch : Char} (h : ch ∈ joinSlash parts) :
    ch = '/' ∨ ∃ part ∈ parts, ch ∈ part := by
  induction parts with
  | nil => cases h
  | cons part parts ih =>
    cases parts with
    | nil => exact .inr ⟨part, List.mem_cons_self, h⟩
    | cons part' parts =>
      rw [joinSlash] at h
      · rcases List.mem_append.1 h with h | h
        · exact .inr ⟨part, List.mem_cons_self, h⟩
        · rcases List.mem_cons.1 h with h | h
          · exact .inl h
          · rcases ih h with h | ⟨p, hp, h⟩
            · exact .inl h
            · exact .inr ⟨p, List.mem_cons_of_mem _ hp, h⟩
      · exact List.cons_ne_nil _ _

theorem NoBackslash.joinSlash {l : List Component} (h : NoBackslash l) :
    '\\' ∉ joinSlash (Component.parts l) := by
  intro hmem
  rcases mem_joinSlash hmem with heq | ⟨part, hpart, hmem⟩
  · cases heq
  · obtain ⟨c, hc, rfl⟩ := List.mem_map.1 hpart
    exact h c hc hmem

theorem normalizePath_of_noBackslash {s : String} (h : '\\' ∉ s.toList) : normalizePath s = s := by
  have hmap : s.toList.map (fun c => if c = '\\' then '/' else c) = s.toList := by
    refine (List.map_congr_left fun c hc => if_neg ?_).trans (List.map_id _)
    rintro rfl
    exact h hc
  rw [normalizePath, hmap, String.ofList_toList]

theorem toStr_rootDir_toList (l : List Component) :
    (Framework.Path.mk (.rootDir :: l)).toStr.toList = '/' :: Framework.joinSlash (Component.parts l) := by
  rw [Path.toStr, String.toList_ofList]

/-! ## Qualified paths -/

theorem pushText_noBackslash {pre l : List Component} (hpre : ∀ c ∈ pre, c.Proper)
    (hl : ∀ c ∈ l, c.Proper) (hpreb : NoBackslash pre) (hlb : NoBackslash l) :
    '\\' ∉ (pushText (Framework.Path.mk pre).toStr (Framework.Path.mk l).toStr).toList := by
  cases pre with
  | nil => rw [pushText_nil hl, toStr_toList hl]; exact hlb.joinSlash
  | cons c pre =>
    rw [pushText_toStr hpre hl (List.cons_ne_nil _ _), List.mem_append, List.mem_cons, not_or,
      not_or]
    exact ⟨hpreb.joinSlash, by decide, hlb.joinSlash⟩

/-- A relative path below a prefix, as the entry has it. -/
theorem qualify_eq {pre l : List Component} (hpre : ∀ c ∈ pre, c.Proper) (hl : ∀ c ∈ l, c.Proper)
    (hpreb : NoBackslash pre) (hlb : NoBackslash l) :
    qualifyRelativePath ⟨pre⟩ (Framework.Path.mk l).toStr = pushText (Framework.Path.mk pre).toStr (Framework.Path.mk l).toStr := by
  have hpush : (if (Framework.Path.mk pre).toStr = "" then (Framework.Path.mk l).toStr
      else pushText (Framework.Path.mk pre).toStr (Framework.Path.mk l).toStr) =
        pushText (Framework.Path.mk pre).toStr (Framework.Path.mk l).toStr := by
    split
    · rename_i hempty
      obtain rfl := toStr_eq_empty hpre hempty
      exact (pushText_nil hl).symm
    · rfl
  rw [qualifyRelativePath, hpush, normalizePath_of_noBackslash]
  exact pushText_noBackslash hpre hl hpreb hlb

/-- The path of the entry, read again, is the prefix and then the relative path. -/
theorem ofStr_qualify {pre l : List Component} (hpre : ∀ c ∈ pre, c.Proper)
    (hl : ∀ c ∈ l, c.Proper) (hpreb : NoBackslash pre) (hlb : NoBackslash l) :
    Path.ofStr (qualifyRelativePath ⟨pre⟩ (Framework.Path.mk l).toStr) = ⟨pre ++ l⟩ := by
  rw [qualify_eq hpre hl hpreb hlb, ofStr_pushText hpre hl]

/-! ## Deduplication -/

theorem mem_of_mem_uniqueRoots {roots : List Path} {p : Path} (h : p ∈ uniqueRoots roots) :
    p ∈ roots := by
  have hfold : ∀ l seen : List Path,
      p ∈ l.foldl (fun seen root => if root ∈ seen then seen else seen ++ [root]) seen →
        p ∈ seen ∨ p ∈ l := by
    intro l
    induction l with
    | nil => exact fun _ h => .inl h
    | cons root l ih =>
      intro seen h
      rcases ih _ h with h | h
      · dsimp only at h
        split at h
        · exact .inl h
        · rcases List.mem_append.1 h with h | h
          · exact .inl h
          · exact .inr (List.mem_singleton.1 h ▸ List.mem_cons_self)
      · exact .inr (List.mem_cons_of_mem _ h)
  exact (hfold roots [] h).resolve_left List.not_mem_nil

/-- An entry whose path is plain below a worktree root with these components. -/
def Tidy (root : List Component) (entry : FileEntry) : Prop :=
  ∃ l, (∀ c ∈ root ++ l, c.Proper) ∧ NoBackslash (root ++ l) ∧
    NormalForm (.rootDir :: (root ++ l)) ∧ Path.ofStr entry.path = ⟨l⟩ ∧
    entry.path.toList.head? ≠ some '/'

/-- Without symbolic links, a path leads where its text says. -/
def NoSymlinks (disk : Disk) : Prop := ∀ p q, disk.canonicalize p = some q → q = p.lexicalNormalize

def dedupeKey (disk : Disk) (roots : List Path) (entry : FileEntry) : String :=
  (canonicalDedupeKey disk roots entry.path).getD entry.path

theorem dedupeStep_present (disk : Disk) (roots : List Path) (s : Deduped) {entry : FileEntry}
    (h : entry.absent = false) : dedupeStep disk roots s entry =
      if dedupeKey disk roots entry ∈ s.seenPresent then s
      else { s with
        seenPresent := dedupeKey disk roots entry :: s.seenPresent
        entries := s.entries ++ [entry] } := by
  unfold dedupeStep
  rw [h]
  rfl

/-- What is dropped has a kept entry of the same path or key. -/
structure Covers (disk : Disk) (roots : List Path) (s : Deduped) (l : List FileEntry) : Prop where
  present : ∀ key ∈ s.seenPresent, ∃ e ∈ s.entries, dedupeKey disk roots e = key
  absent : ∀ path ∈ s.seenAbsent, ∃ e ∈ s.entries, e.path = path
  kept : ∀ e ∈ s.entries, e ∈ l
  covers : ∀ e ∈ l, ∃ e' ∈ s.entries, e'.path = e.path ∨ dedupeKey disk roots e' = dedupeKey disk roots e

section Covers

variable {disk : Disk} {roots : List Path} {s : Deduped} {l : List FileEntry} {entry : FileEntry}

theorem Covers.drop (h : Covers disk roots s l) (hseen : ∃ e ∈ s.entries,
    e.path = entry.path ∨ dedupeKey disk roots e = dedupeKey disk roots entry) :
    Covers disk roots s (l ++ [entry]) where
  present := h.present
  absent := h.absent
  kept e he := List.mem_append_left _ (h.kept e he)
  covers := List.forall_mem_append.2 ⟨h.covers, List.forall_mem_singleton.2 hseen⟩

theorem Covers.keep (h : Covers disk roots s l) {present absent : List String}
    (hpresent : ∀ key ∈ present, key = dedupeKey disk roots entry ∨ key ∈ s.seenPresent)
    (habsent : ∀ path ∈ absent, path = entry.path ∨ path ∈ s.seenAbsent) :
    Covers disk roots ⟨present, absent, s.entries ++ [entry]⟩ (l ++ [entry]) where
  present key hkey := by
    rcases hpresent key hkey with rfl | hkey
    · exact ⟨entry, by simp, rfl⟩
    · obtain ⟨e, he, heq⟩ := h.present key hkey
      exact ⟨e, List.mem_append_left _ he, heq⟩
  absent path hpath := by
    rcases habsent path hpath with rfl | hpath
    · exact ⟨entry, by simp, rfl⟩
    · obtain ⟨e, he, heq⟩ := h.absent path hpath
      exact ⟨e, List.mem_append_left _ he, heq⟩
  kept := List.forall_mem_append.2 ⟨fun e he => List.mem_append_left _ (h.kept e he), by simp⟩
  covers := by
    refine List.forall_mem_append.2 ⟨fun e he => ?_, List.forall_mem_singleton.2 ?_⟩
    · obtain ⟨e', he', heq⟩ := h.covers e he
      exact ⟨e', List.mem_append_left _ he', heq⟩
    · exact ⟨entry, by simp, .inl rfl⟩

theorem Covers.step (h : Covers disk roots s l) (entry : FileEntry) :
    Covers disk roots (dedupeStep disk roots s entry) (l ++ [entry]) := by
  cases habs : entry.absent with
  | true =>
    rw [dedupeStep, if_pos habs]
    split
    · rename_i hseen
      obtain ⟨e, he, heq⟩ := h.absent _ hseen
      exact h.drop ⟨e, he, .inl heq⟩
    · exact h.keep (fun _ hk => .inr hk) (fun _ hp => List.mem_cons.1 hp)
  | false =>
    rw [dedupeStep_present disk roots s habs]
    split
    · rename_i hseen
      obtain ⟨e, he, heq⟩ := h.present _ hseen
      exact h.drop ⟨e, he, .inr heq⟩
    · exact h.keep (fun _ hk => List.mem_cons.1 hk) (fun _ hp => .inr hp)

theorem Covers.run (l' : List FileEntry) (h : Covers disk roots s l) :
    Covers disk roots (l'.foldl (dedupeStep disk roots) s) (l ++ l') := by
  induction l' generalizing s l with
  | nil => rwa [List.append_nil]
  | cons entry l' ih =>
    have := ih (h.step entry)
    rwa [List.append_assoc] at this

theorem covers_dedupe (disk : Disk) (roots : List Path) (entries : List FileEntry) :
    Covers disk roots (entries.foldl (dedupeStep disk roots) ⟨[], [], []⟩) entries := by
  have hstart : Covers disk roots ⟨[], [], []⟩ [] := ⟨nofun, nofun, nofun, nofun⟩
  exact hstart.run entries

end Covers

theorem join_proper {base l : List Component} (hbase : base ≠ []) (hl : ∀ c ∈ l, c.Proper) :
    (Framework.Path.mk base).join ⟨l⟩ = ⟨base ++ l⟩ := by
  have hroot : (Framework.Path.mk l).isAbsolute = false := by
    rw [Path.isAbsolute, decide_eq_false_iff_not]
    intro h
    cases hl _ (List.mem_of_mem_head? h)
  have hcur : l.head? ≠ some .curDir := by
    intro h
    cases hl _ (List.mem_of_mem_head? h)
  rw [Path.join, if_neg (by simp [hroot]), if_neg hbase]
  show Framework.Path.mk (base ++ if l.head? = some .curDir then l.tail else l) = _
  rw [if_neg hcur]

/-- The key of an entry is its own path, or the text of the place it stands for. -/
theorem dedupeKey_cases {disk : Disk} (hdisk : NoSymlinks disk) {root : List Component}
    {roots : List Path} (hroots : ∀ p ∈ roots, p = ⟨.rootDir :: root⟩) {e : FileEntry}
    {l : List Component} (hl : ∀ c ∈ root ++ l, c.Proper) (hlb : NoBackslash (root ++ l))
    (hnormal : NormalForm (.rootDir :: (root ++ l))) (hpath : Path.ofStr e.path = ⟨l⟩) :
    dedupeKey disk roots e = e.path ∨
      dedupeKey disk roots e = (Framework.Path.mk (.rootDir :: (root ++ l))).toStr := by
  unfold dedupeKey canonicalDedupeKey
  cases hfound : roots.findSome? fun root => disk.canonicalize (root.join (.ofStr e.path)) with
  | none => exact .inl rfl
  | some place =>
    right
    obtain ⟨r, hr, hplace⟩ := List.exists_of_findSome?_eq_some hfound
    rw [hroots r hr, hpath,
      join_proper (List.cons_ne_nil _ _) (List.forall_mem_append.1 hl).2] at hplace
    have hnormalized : place = ⟨.rootDir :: (root ++ l)⟩ := by
      rw [hdisk _ _ hplace]
      exact Framework.Path.ext hnormal.foldl
    have hplaceb : '\\' ∉ place.toStr.toList := by
      rw [hnormalized, toStr_rootDir_toList, List.mem_cons, not_or]
      exact ⟨by decide, hlb.joinSlash⟩
    show normalizePath place.toStr = _
    rw [normalizePath_of_noBackslash hplaceb, hnormalized]

/-- Entries that share a key are for the same place. -/
theorem path_eq_of_dedupeKey {disk : Disk} (hdisk : NoSymlinks disk) {root : List Component}
    {roots : List Path} (hroots : ∀ p ∈ roots, p = ⟨.rootDir :: root⟩) {e e' : FileEntry}
    (he : Tidy root e) (he' : Tidy root e')
    (h : dedupeKey disk roots e = dedupeKey disk roots e') :
    Path.ofStr e.path = Path.ofStr e'.path := by
  obtain ⟨l, hl, hlb, hnormal, hpath, hhead⟩ := he
  obtain ⟨l', hl', hlb', hnormal', hpath', hhead'⟩ := he'
  have habsolute : ∀ m, (Framework.Path.mk (.rootDir :: (root ++ m))).toStr.toList.head? = some '/' := by
    intro m
    rw [toStr_rootDir_toList, List.head?_cons]
  rcases dedupeKey_cases hdisk hroots hl hlb hnormal hpath with hkey | hkey <;>
    rcases dedupeKey_cases hdisk hroots hl' hlb' hnormal' hpath' with hkey' | hkey' <;>
    rw [hkey, hkey'] at h
  · rw [h]
  · -- a path relative to the worktree root is no absolute one
    exact absurd (h ▸ habsolute l') hhead
  · exact absurd (h ▸ habsolute l) hhead'
  · rw [hpath, hpath', List.append_cancel_left (toStr_rootDir_injOn hl hl' h)]

/-- Deduplication keeps an entry for every place. -/
theorem exists_entry_dedupe {disk : Disk} (hdisk : NoSymlinks disk) {root : List Component}
    {roots : List Path} (hroots : ∀ p ∈ roots, p = ⟨.rootDir :: root⟩) {entries : List FileEntry}
    (htidy : ∀ e ∈ entries, Tidy root e) (p : Path) :
    (∃ e ∈ dedupeAndSortEntries disk entries roots, EntryFor ⟨.rootDir :: root⟩ p e) ↔
      ∃ e ∈ entries, EntryFor ⟨.rootDir :: root⟩ p e := by
  have hcovers := covers_dedupe disk roots entries
  constructor
  · rintro ⟨e, he, hfor⟩
    exact ⟨e, hcovers.kept e (mem_sortBy.1 he), hfor⟩
  · rintro ⟨e, he, hfor⟩
    obtain ⟨e', he', hsame⟩ := hcovers.covers e he
    refine ⟨e', mem_sortBy.2 he', ?_⟩
    have hpath : Path.ofStr e'.path = Path.ofStr e.path := by
      rcases hsame with hpath | hkey
      · rw [hpath]
      · exact path_eq_of_dedupeKey hdisk hroots (htidy e' (hcovers.kept e' he')) (htidy e he) hkey
    rw [EntryFor, hpath]
    exact hfor

end Luchta.Proof.Resolve
