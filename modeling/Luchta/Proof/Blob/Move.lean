import Luchta.Impl.Blob

/-!
# Moving what was unpacked

* `MoveSpec`: what a move writes, keeps and makes, also where it fails.
* `moveSpec`: every move does so.
* `move_succeeds`: where nothing is in the way, all is moved.
-/

namespace Luchta.Proof.Blob

open Luchta.Framework Luchta.Impl Luchta.Impl.Blob

variable {α : Type*} {source package rest children : Dir File} {toDir p q : List String} {name : String}

/-! ## Listings -/

theorem entry_below (h : rest.entry [name] = none) (p : List String) : rest.entry (name :: p) = none := by
  by_contra hp
  by_cases hnil : p = []
  · exact hp (hnil ▸ h)
  · have hdir : rest.entry [name] = some .dir := Dir.entry_prefix hp (by simp) (by simpa using Ne.symm hnil)
    rw [h] at hdir
    cases hdir

theorem entry_file_cons (file : File) (hne : q.head? ≠ some name) :
    (Dir.file name file rest).entry q = rest.entry q := by
  cases q with
  | nil => simp
  | cons a q => simp_all [Dir.entry]

theorem entry_dir_cons (hne : q.head? ≠ some name) : (Dir.dir name children rest).entry q = rest.entry q := by
  cases q with
  | nil => simp
  | cons a q => simp_all [Dir.entry]

/-- What the rest of a listing holds, the whole holds. -/
theorem head_ne_of_entry (h : rest.entry [name] = none) (hq : rest.entry q ≠ none) : q.head? ≠ some name := by
  cases q with
  | nil => simp
  | cons a q =>
    intro ha
    obtain rfl : a = name := by simpa using ha
    exact hq (entry_below h q)

/-! ## One move -/

/-- What a move from `source` to `toDir` has done to the package. -/
structure MoveSpec (source : Dir File) (toDir : List String) (package : Dir File) (moved : MoveResult) : Prop where
  written : ∀ q ∈ moved.writtenPaths, ∃ p x, q = toDir ++ p ∧ source.entry p = some (.file x) ∧
    META_DIR_NAME ∉ p ∧ moved.package.entry q = some (.file x)
  kept : ∀ q, q ∉ moved.writtenPaths → ∀ x, moved.package.entry q = some (.file x) ↔ package.entry q = some (.file x)
  dirs : ∀ q, package.entry q = some .dir → moved.package.entry q = some .dir
  made : ∀ q, moved.package.entry q = some .dir → package.entry q = some .dir ∨
    ∃ p, q = toDir ++ p ∧ source.entry p = some .dir ∧ META_DIR_NAME ∉ p
  all : moved.failed = false → ∀ p x, META_DIR_NAME ∉ p → source.entry p = some (.file x) →
    toDir ++ p ∈ moved.writtenPaths

/-- A directory that is there can be made. -/
theorem entry_createDirAll_existing {package' : Dir File} (hto : package.entry toDir = some .dir)
    (h : package.createDirAll toDir = some package') (q : List String) : package'.entry q = package.entry q := by
  rw [Dir.entry_createDirAll h]
  split
  · rename_i hq
    by_cases he : q = toDir
    · rw [he, hto]
    · exact (Dir.entry_prefix (by simp [hto]) hq he).symm
  · rfl

/-- What comes after a listing's first entry, which is left where it is. -/
theorem MoveSpec.of_rest {moved : MoveResult} {left : Dir File} (h : MoveSpec rest toDir package moved)
    (hentry : ∀ p, META_DIR_NAME ∉ p → source.entry p = rest.entry p) :
    MoveSpec source toDir package { moved with left := left } where
  written q hq := by
    obtain ⟨p, x, hqp, hp, hmeta, hx⟩ := h.written q hq
    exact ⟨p, x, hqp, (hentry p hmeta).trans hp, hmeta, hx⟩
  kept := h.kept
  dirs := h.dirs
  made q hq := (h.made q hq).imp_right fun ⟨p, hqp, hp, hmeta⟩ => ⟨p, hqp, (hentry p hmeta).trans hp, hmeta⟩
  all hf p x hmeta hp := h.all hf p x hmeta ((hentry p hmeta).symm.trans hp)

/-- Nothing was moved, but directories that were there may have been made. -/
theorem MoveSpec.of_failed {package' left : Dir File}
    (hentry : ∀ q, package'.entry q = package.entry q) : MoveSpec source toDir package ⟨package', [], left, true⟩ where
  written q hq := by cases hq
  kept q _ x := by rw [hentry]
  dirs q hq := (hentry q).trans hq
  made q hq := .inl ((hentry q).symm.trans hq)
  all hf := by cases hf

/-- A file is moved, and then the rest. -/
theorem MoveSpec.of_file {file : File} {package' package'' : Dir File} {moved : MoveResult}
    (hname : rest.entry [name] = none) (hmeta : name ≠ META_DIR_NAME) (hto : package.entry toDir = some .dir)
    (hdir : package.createDirAll toDir = some package') (hput : package'.put (toDir ++ [name]) file = some package'')
    (h : MoveSpec rest toDir package'' moved) : MoveSpec (.file name file rest) toDir package
      { moved with writtenPaths := (toDir ++ [name]) :: moved.writtenPaths } where
  written q hq := by
    have hrest : toDir ++ [name] ∉ moved.writtenPaths := by
      intro hmem
      obtain ⟨p, x, hqp, hp, -, -⟩ := h.written _ hmem
      obtain rfl : [name] = p := List.append_cancel_left hqp
      rw [hname] at hp
      cases hp
    rcases List.mem_cons.1 hq with rfl | hq
    · refine ⟨[name], file, rfl, by simp [Dir.entry], by simpa using Ne.symm hmeta, ?_⟩
      exact (h.kept _ hrest file).2 (by simp [Dir.entry_put hput])
    · obtain ⟨p, x, hqp, hp, hmp, hx⟩ := h.written q hq
      exact ⟨p, x, hqp, (entry_file_cons file (head_ne_of_entry hname (by simp [hp]))).trans hp, hmp, hx⟩
  kept q hq x := by
    obtain ⟨hne, hq⟩ := not_or.1 (mt List.mem_cons.2 hq)
    rw [h.kept q hq, Dir.entry_put hput, if_neg hne, Dir.file_createDirAll hdir]
  dirs q hq := h.dirs q ((Dir.dir_put hput).2 ((entry_createDirAll_existing hto hdir q).trans hq))
  made q hq := by
    rcases h.made q hq with hd | ⟨p, hqp, hp, hmp⟩
    · exact .inl ((entry_createDirAll_existing hto hdir q).symm.trans ((Dir.dir_put hput).1 hd))
    · exact .inr ⟨p, hqp, (entry_file_cons file (head_ne_of_entry hname (by simp [hp]))).trans hp, hmp⟩
  all hf p x hmp hp := by
    by_cases hhead : p.head? = some name
    · cases p with
      | nil => cases hhead
      | cons a p =>
        obtain rfl : a = name := by simpa using hhead
        cases p with
        | nil => exact List.mem_cons_self
        | cons b p => simp [Dir.entry] at hp
    · rw [entry_file_cons file hhead] at hp
      exact List.mem_cons_of_mem _ (h.all hf p x hmp hp)

/-- The directory of the children is there when they are moved. -/
theorem entry_made {package' : Dir File} (hdir : package.createDirAll p = some package') :
    package'.entry p = some .dir := by simp [Dir.entry_createDirAll hdir]

/-- A directory is made, and its children are moved. -/
theorem MoveSpec.of_children {package' left : Dir File} {child : MoveResult} {failed : Bool}
    (hmeta : name ≠ META_DIR_NAME) (hto : package.entry toDir = some .dir)
    (hdir : package.createDirAll (toDir ++ [name]) = some package')
    (h : MoveSpec children (toDir ++ [name]) package' child) (hf : failed = false → child.failed = false) :
    MoveSpec (.dir name children .nil) toDir package { child with left := left, failed := failed } where
  written q hq := by
    obtain ⟨p, x, hqp, hp, hmp, hx⟩ := h.written q hq
    exact ⟨name :: p, x, by simp [hqp], by simpa [Dir.entry] using hp, by simp [hmp, Ne.symm hmeta], hx⟩
  kept q hq x := by rw [h.kept q hq, Dir.file_createDirAll hdir]
  dirs q hq := h.dirs q (by rw [Dir.entry_createDirAll hdir, hq, ite_self])
  made q hq := by
    rcases h.made q hq with hd | ⟨p, hqp, hp, hmp⟩
    · rw [Dir.entry_createDirAll hdir] at hd
      split at hd
      · rename_i hpre
        by_cases he : q = toDir ++ [name]
        · exact .inr ⟨[name], he, by simp [Dir.entry], by simpa using Ne.symm hmeta⟩
        · have hq : q <+: toDir := (List.prefix_concat_iff.1 hpre).resolve_left he
          by_cases hqt : q = toDir
          · exact .inl (hqt ▸ hto)
          · exact .inl (Dir.entry_prefix (by simp [hto]) hq hqt)
      · exact .inl hd
    · exact .inr ⟨name :: p, by simp [hqp], by simpa [Dir.entry] using hp, by simp [hmp, Ne.symm hmeta]⟩
  all hfailed p x hmp hp := by
    cases p with
    | nil => simp at hp
    | cons a p =>
      by_cases ha : a = name
      · subst ha
        have hin := h.all (hf hfailed) p x (fun hm => hmp (List.mem_cons_of_mem _ hm)) (by simpa [Dir.entry] using hp)
        simpa using hin
      · simp [Dir.entry, ha] at hp

/-- What is in a directory has its name in front. -/
theorem entry_single (rest : Dir File) {node : Node File} (h : (Dir.dir name children .nil).entry p = some node) (hp : p ≠ []) :
    p.head? = some name ∧ (Dir.dir name children rest).entry p = some node := by
  cases p with
  | nil => exact absurd rfl hp
  | cons a p =>
    by_cases ha : a = name
    · subst ha
      exact ⟨rfl, by simpa [Dir.entry] using h⟩
    · simp [Dir.entry, ha] at h

/-- A directory's children are moved, and then the rest. -/
theorem MoveSpec.append {first moved : MoveResult} (hname : rest.entry [name] = none)
    (h : MoveSpec (.dir name children .nil) toDir package first)
    (h' : MoveSpec rest toDir first.package moved) (hf : first.failed = false) :
    MoveSpec (.dir name children rest) toDir package
      { moved with writtenPaths := first.writtenPaths ++ moved.writtenPaths } where
  written q hq := by
    rcases List.mem_append.1 hq with hq | hq
    · obtain ⟨p, x, rfl, hp, hmp, hx⟩ := h.written q hq
      have hne : p ≠ [] := by
        rintro rfl
        simp at hp
      obtain ⟨hhead, hentry⟩ := entry_single rest hp hne
      refine ⟨p, x, rfl, hentry, hmp, (h'.kept _ (fun hmem => ?_) x).2 hx⟩
      obtain ⟨p', y, heq, hp', -, -⟩ := h'.written _ hmem
      obtain rfl := List.append_cancel_left heq
      exact head_ne_of_entry hname (by simp [hp']) hhead
    · obtain ⟨p, x, hqp, hp, hmp, hx⟩ := h'.written q hq
      exact ⟨p, x, hqp, (entry_dir_cons (head_ne_of_entry hname (by simp [hp]))).trans hp, hmp, hx⟩
  kept q hq x := by
    rw [List.mem_append, not_or] at hq
    rw [h'.kept q hq.2, h.kept q hq.1]
  dirs q hq := h'.dirs q (h.dirs q hq)
  made q hq := by
    rcases h'.made q hq with hd | ⟨p, hqp, hp, hmp⟩
    · refine (h.made q hd).imp_right fun ⟨p, hqp, hp, hmp⟩ => ⟨p, hqp, ?_, hmp⟩
      by_cases hne : p = []
      · simp [hne]
      · exact (entry_single _ hp hne).2
    · exact .inr ⟨p, hqp, (entry_dir_cons (head_ne_of_entry hname (by simp [hp]))).trans hp, hmp⟩
  all hfailed p x hmp hp := by
    refine List.mem_append.2 ?_
    by_cases hhead : p.head? = some name
    · refine .inl (h.all hf p x hmp ?_)
      cases p with
      | nil => cases hhead
      | cons a p =>
        obtain rfl : a = name := by simpa using hhead
        simpa [Dir.entry] using hp
    · exact .inr (h'.all hfailed p x hmp ((entry_dir_cons hhead).symm.trans hp))

/-- The rest is left where it is. -/
theorem MoveSpec.of_first {moved : MoveResult} (h : MoveSpec (.dir name children .nil) toDir package moved)
    (hf : moved.failed = true) : MoveSpec (.dir name children rest) toDir package moved where
  written q hq := by
    obtain ⟨p, x, hqp, hp, hmp, hx⟩ := h.written q hq
    have hne : p ≠ [] := by
      rintro rfl
      simp at hp
    exact ⟨p, x, hqp, (entry_single _ hp hne).2, hmp, hx⟩
  kept := h.kept
  dirs := h.dirs
  made q hq := by
    refine (h.made q hq).imp_right fun ⟨p, hqp, hp, hmp⟩ => ⟨p, hqp, ?_, hmp⟩
    by_cases hne : p = []
    · simp [hne]
    · exact (entry_single _ hp hne).2
  all hok := by
    rw [hf] at hok
    cases hok

theorem moveSpec (hd : source.Distinct) (hto : package.entry toDir = some .dir) :
    MoveSpec source toDir package (moveNonMetaFiles source toDir package) := by
  induction source generalizing toDir package with
  | nil =>
    rw [moveNonMetaFiles]
    exact {
      written := fun q hq => by cases hq
      kept := fun q _ x => Iff.rfl
      dirs := fun q hq => hq
      made := fun q hq => .inl hq
      all := fun _ p x _ hp => by cases p <;> simp [Dir.entry] at hp }
  | file name file rest ih =>
    rw [moveNonMetaFiles]
    split
    · rename_i hmeta
      exact (ih hd.2 hto).of_rest fun p hp =>
        entry_file_cons file fun hhead => hp (hmeta ▸ List.mem_of_mem_head? hhead)
    · rename_i hmeta
      split
      · exact .of_failed fun q => rfl
      · rename_i package' hdir
        split
        · exact .of_failed (entry_createDirAll_existing hto hdir)
        · rename_i package'' hput
          have hto'' : package''.entry toDir = some .dir :=
            (Dir.dir_put hput).2 ((entry_createDirAll_existing hto hdir toDir).trans hto)
          exact .of_file hd.1 hmeta hto hdir hput (ih hd.2 hto'')
  | dir name children rest ihc ihr =>
    rw [moveNonMetaFiles]
    split
    · rename_i hmeta
      exact (ihr hd.2.2 hto).of_rest fun p hp =>
        entry_dir_cons fun hhead => hp (hmeta ▸ List.mem_of_mem_head? hhead)
    · rename_i hmeta
      split
      · exact .of_failed fun q => rfl
      · rename_i package' hdir
        have hchild := ihc hd.2.1 (entry_made hdir)
        dsimp only
        split
        · exact .of_first (.of_children hmeta hto hdir hchild fun hf => by cases hf) rfl
        · rename_i hok
          rw [Bool.not_eq_true, Bool.or_eq_false_iff] at hok
          have hfirst : MoveSpec (.dir name children .nil) toDir package
              (moveNonMetaFiles children (toDir ++ [name]) package') :=
            .of_children hmeta hto hdir hchild id
          exact hfirst.append hd.1 (ihr hd.2.2 (hfirst.dirs _ hto)) hok.1

/-! ## Moves that succeed -/

/-- Nothing in the package is in the way, and none of the names is kept back. -/
structure Movable (source : Dir File) (toDir : List String) (package : Dir File) : Prop where
  files : ∀ p x, source.entry p = some (.file x) → package.entry (toDir ++ p) ≠ some .dir
  dirs : ∀ p, source.entry p = some .dir → ∀ x, package.entry (toDir ++ p) ≠ some (.file x)
  names : ∀ p, source.entry p ≠ none → META_DIR_NAME ∉ p

theorem move_succeeds (hd : source.Distinct) (hto : package.entry toDir = some .dir)
    (hm : Movable source toDir package) : (moveNonMetaFiles source toDir package).failed = false ∧
      (moveNonMetaFiles source toDir package).left = .nil := by
  induction source generalizing toDir package with
  | nil => exact ⟨rfl, rfl⟩
  | file name file rest ih =>
    have hhead : ∀ p, rest.entry p ≠ none → p.head? ≠ some name := fun p hp => head_ne_of_entry hd.1 hp
    have hmeta : name ≠ META_DIR_NAME := fun he => hm.names [name] (by simp [Dir.entry]) (by simp [he])
    have hfile := hm.files [name] file (by simp [Dir.entry])
    obtain ⟨package', hdir⟩ : ∃ package', package.createDirAll toDir = some package' := by
      refine Dir.exists_createDirAll fun q hq x hx => ?_
      by_cases he : q = toDir
      · rw [he, hto] at hx
        cases hx
      · rw [Dir.entry_prefix (by simp [hto]) hq he] at hx
        cases hx
    have hsame := entry_createDirAll_existing hto hdir
    obtain ⟨package'', hput⟩ : ∃ package'', package'.put (toDir ++ [name]) file = some package'' := by
      refine Dir.exists_put (by simp) ?_ ?_
      · rw [List.dropLast_concat, hsame, hto]
      · rw [hsame]
        exact hfile
    rw [moveNonMetaFiles, if_neg hmeta, hdir]
    dsimp only
    rw [hput]
    refine ih hd.2 ((Dir.dir_put hput).2 ((hsame toDir).trans hto)) ⟨fun p x hp hc => ?_, fun p hp x hx => ?_, ?_⟩
    · rw [Dir.dir_put hput, hsame] at hc
      exact hm.files p x ((entry_file_cons file (hhead p (by simp [hp]))).trans hp) hc
    · rw [Dir.entry_put hput, hsame] at hx
      split at hx
      · rename_i he
        obtain rfl := List.append_cancel_left he
        exact hhead [name] (by simp [hp]) rfl
      · exact hm.dirs p ((entry_file_cons file (hhead p (by simp [hp]))).trans hp) x hx
    · exact fun p hp => hm.names p (by rwa [entry_file_cons file (hhead p hp)])
  | dir name children rest ihc ihr =>
    have hhead : ∀ p, rest.entry p ≠ none → p.head? ≠ some name := fun p hp => head_ne_of_entry hd.1 hp
    have hmeta : name ≠ META_DIR_NAME := fun he => hm.names [name] (by simp [Dir.entry]) (by simp [he])
    have hchildren : ∀ p, (Dir.dir name children rest).entry (name :: p) = children.entry p := by simp [Dir.entry]
    obtain ⟨package', hdir⟩ : ∃ package', package.createDirAll (toDir ++ [name]) = some package' := by
      refine Dir.exists_createDirAll fun q hq x hx => ?_
      by_cases he : q = toDir ++ [name]
      · rw [he] at hx
        exact hm.dirs [name] (by simp [Dir.entry]) x hx
      · have hq : q <+: toDir := (List.prefix_concat_iff.1 hq).resolve_left he
        by_cases hqt : q = toDir
        · rw [hqt, hto] at hx
          cases hx
        · rw [Dir.entry_prefix (by simp [hto]) hq hqt] at hx
          cases hx
    have hspec := moveSpec hd.2.1 (entry_made hdir)
    have hbelow : ∀ p, p ≠ [] → package'.entry (toDir ++ [name] ++ p) = package.entry (toDir ++ name :: p) := by
      intro p hp
      rw [Dir.entry_createDirAll hdir, if_neg, List.append_assoc, List.singleton_append]
      exact fun hpre => hp (by simpa using hpre.length_le)
    have hbeside : ∀ p, p ≠ [] → p.head? ≠ some name → package'.entry (toDir ++ p) = package.entry (toDir ++ p) := by
      intro p hp hne
      rw [Dir.entry_createDirAll hdir, if_neg]
      rw [List.prefix_append_right_inj]
      cases p with
      | nil => exact absurd rfl hp
      | cons a p => exact fun hpre => hne (by rw [(List.cons_prefix_cons.1 hpre).1]; rfl)
    have hchild := ihc hd.2.1 (entry_made hdir) (by
      refine ⟨fun p x hp hc => ?_, fun p hp x hx => ?_, fun p hp hmp => ?_⟩
      · have hne : p ≠ [] := by
          rintro rfl
          simp at hp
        exact hm.files (name :: p) x ((hchildren p).trans hp) ((hbelow p hne).symm.trans hc)
      · by_cases hne : p = []
        · subst hne
          rw [List.append_nil, entry_made hdir] at hx
          cases hx
        · exact hm.dirs (name :: p) ((hchildren p).trans hp) x ((hbelow p hne).symm.trans hx)
      · exact hm.names (name :: p) (by rwa [hchildren]) (List.mem_cons_of_mem _ hmp))
    rw [moveNonMetaFiles, if_neg hmeta, hdir]
    dsimp only
    rw [if_neg (by simp [hchild.1, hchild.2])]
    have hentry : ∀ p, rest.entry p ≠ none → (Dir.dir name children rest).entry p = rest.entry p :=
      fun p hp => entry_dir_cons (hhead p hp)
    have hapart : ∀ p, p.head? ≠ some name → ∀ p', toDir ++ p ≠ toDir ++ [name] ++ p' := by
      intro p hne p' he
      rw [List.append_assoc] at he
      obtain rfl := List.append_cancel_left he
      exact hne rfl
    refine ihr hd.2.2 (hspec.dirs _ (by rw [Dir.entry_createDirAll hdir, if_pos (List.prefix_append _ _)]))
      ⟨fun p x hp hc => ?_, fun p hp x hx => ?_, fun p hp => hm.names p (by rwa [hentry p hp])⟩
    · have hne : p ≠ [] := by
        rintro rfl
        simp at hp
      have hnot : rest.entry p ≠ none := by simp [hp]
      rcases hspec.made _ hc with hd' | ⟨p', he, -, -⟩
      · rw [hbeside p hne (hhead p hnot)] at hd'
        exact hm.files p x ((hentry p hnot).trans hp) hd'
      · exact hapart p (hhead p hnot) p' he
    · have hnot : rest.entry p ≠ none := by simp [hp]
      by_cases hne : p = []
      · subst hne
        rw [List.append_nil, hspec.dirs _ (by rw [Dir.entry_createDirAll hdir, if_pos (List.prefix_append _ _)])] at hx
        cases hx
      · rw [hspec.kept _ (fun hmem => ?_), hbeside p hne (hhead p hnot)] at hx
        · exact hm.dirs p ((hentry p hnot).trans hp) x hx
        · obtain ⟨p', y, he, -⟩ := hspec.written _ hmem
          exact hapart p (hhead p hnot) p' he

end Luchta.Proof.Blob
