import Mathlib.Data.List.Infix
import Mathlib.Tactic.Common

/-!
# Directory trees

Directories of named files, as a program makes, lists and fills them through paths. There are no links, and no
permissions. The entries of a directory stand in the order in which it is listed, which is any order.

* `Dir.entry`: what is at a path.
* `Dir.createDirAll`, `Dir.put`: making a directory with those above it, and making or replacing a file; `none`
  where something is in the way.
* `entry_createDirAll`, `entry_put`: what is at each path afterwards.
* `Dir.Distinct`: no two entries of a directory have one name.
-/

namespace Luchta.Framework

inductive Dir (α : Type*)
  | nil
  | file (name : String) (data : α) (rest : Dir α)
  | dir (name : String) (children rest : Dir α)
  deriving DecidableEq

/-- What is at a path. -/
inductive Node (α : Type*)
  | file (data : α)
  | dir
  deriving DecidableEq

namespace Dir

variable {α : Type*}

def entry : Dir α → List String → Option (Node α)
  | _, [] => some .dir
  | nil, _ :: _ => none
  | file name data rest, a :: path =>
    if a = name then (if path = [] then some (.file data) else none) else rest.entry (a :: path)
  | dir name children rest, a :: path =>
    if a = name then children.entry path else rest.entry (a :: path)

/-- Directories below one another. -/
def nest : List String → Dir α
  | [] => nil
  | a :: path => dir a (nest path) nil

def createDirAll : Dir α → List String → Option (Dir α)
  | d, [] => some d
  | nil, a :: path => some (nest (a :: path))
  | file name data rest, a :: path =>
    if a = name then none else (rest.createDirAll (a :: path)).map (file name data)
  | dir name children rest, a :: path =>
    if a = name then (children.createDirAll path).map (dir name · rest)
    else (rest.createDirAll (a :: path)).map (dir name children)

/-- The directory of the file must be there. -/
def put : Dir α → List String → α → Option (Dir α)
  | _, [], _ => none
  | nil, [a], x => some (file a x nil)
  | nil, _ :: _ :: _, _ => none
  | file name data rest, a :: path, x =>
    if a = name then (if path = [] then some (file name x rest) else none)
    else (rest.put (a :: path) x).map (file name data)
  | dir name children rest, a :: path, x =>
    if a = name then (children.put path x).map (dir name · rest)
    else (rest.put (a :: path) x).map (dir name children)

attribute [local simp] nest entry createDirAll put

variable {d d' : Dir α} {p q : List String} {x y : α}

@[simp] theorem entry_root (d : Dir α) : d.entry [] = some .dir := by cases d <;> rfl

theorem entry_nil_of_ne (hq : q ≠ []) : (nil : Dir α).entry q = none := by
  cases q with
  | nil => exact absurd rfl hq
  | cons a path => rfl

theorem entry_nest (p q : List String) :
    (nest p : Dir α).entry q = if q <+: p then some .dir else none := by
  induction p generalizing q with
  | nil => cases q <;> simp
  | cons a path ih =>
    cases q with
    | nil => simp
    | cons b q =>
      by_cases hab : b = a
      · simp [hab, ih, List.cons_prefix_cons]
      · simp [hab, List.cons_prefix_cons]

theorem entry_createDirAll (h : d.createDirAll p = some d') (q : List String) :
    d'.entry q = if q <+: p then some .dir else d.entry q := by
  induction d generalizing p q d' with
  | nil =>
    cases p with
    | nil =>
      obtain rfl := Option.some.inj h
      cases q <;> simp
    | cons a path =>
      obtain rfl := Option.some.inj h
      rw [entry_nest]
      cases q <;> simp
  | file name data rest ih =>
    cases p with
    | nil =>
      obtain rfl := Option.some.inj h
      cases q <;> simp
    | cons a path =>
      simp only [createDirAll] at h
      split at h
      · cases h
      · rename_i hne
        obtain ⟨rest', hrest, rfl⟩ := Option.map_eq_some_iff.1 h
        cases q with
        | nil => simp
        | cons b q =>
          by_cases hb : b = name
          · simp [hb, List.cons_prefix_cons, Ne.symm hne]
          · simp only [entry, hb, if_false]
            exact ih hrest _
  | dir name children rest ihc ihr =>
    cases p with
    | nil =>
      obtain rfl := Option.some.inj h
      cases q <;> simp
    | cons a path =>
      simp only [createDirAll] at h
      split at h
      · rename_i ha
        obtain ⟨children', hchildren, rfl⟩ := Option.map_eq_some_iff.1 h
        cases q with
        | nil => simp
        | cons b q => by_cases hb : b = name <;> simp [hb, ha, ihc hchildren, List.cons_prefix_cons]
      · rename_i hne
        obtain ⟨rest', hrest, rfl⟩ := Option.map_eq_some_iff.1 h
        cases q with
        | nil => simp
        | cons b q =>
          by_cases hb : b = name
          · simp [hb, List.cons_prefix_cons, Ne.symm hne]
          · simp only [entry, hb, if_false]
            exact ihr hrest _

theorem exists_createDirAll (h : ∀ q, q <+: p → ∀ x, d.entry q ≠ some (.file x)) :
    ∃ d', d.createDirAll p = some d' := by
  induction d generalizing p with
  | nil => cases p <;> exact ⟨_, rfl⟩
  | file name data rest ih =>
    cases p with
    | nil => exact ⟨_, rfl⟩
    | cons a path =>
      by_cases ha : a = name
      · exact absurd (by simp [ha]) (h [a] (by simp) data)
      · obtain ⟨rest', hrest⟩ := ih (p := a :: path) fun q hq x => by
          cases q with
          | nil => simp
          | cons b q =>
            have hb : b ≠ name := fun hb => ha ((List.cons_prefix_cons.1 hq).1.symm.trans hb)
            simpa [hb] using h _ hq x
        exact ⟨file name data rest', by simp [ha, hrest]⟩
  | dir name children rest ihc ihr =>
    cases p with
    | nil => exact ⟨_, rfl⟩
    | cons a path =>
      by_cases ha : a = name
      · obtain ⟨children', hchildren⟩ := ihc (p := path) fun q hq x => by
          simpa [ha] using h (a :: q) (List.cons_prefix_cons.2 ⟨rfl, hq⟩) x
        exact ⟨dir name children' rest, by simp [ha, hchildren]⟩
      · obtain ⟨rest', hrest⟩ := ihr (p := a :: path) fun q hq x => by
          cases q with
          | nil => simp
          | cons b q =>
            have hb : b ≠ name := fun hb => ha ((List.cons_prefix_cons.1 hq).1.symm.trans hb)
            simpa [hb] using h _ hq x
        exact ⟨dir name children rest', by simp [ha, hrest]⟩

theorem entry_put (h : d.put p x = some d') (q : List String) :
    d'.entry q = if q = p then some (.file x) else d.entry q := by
  induction d generalizing p q d' with
  | nil =>
    match p with
    | [] => cases h
    | [a] =>
      obtain rfl := Option.some.inj h
      cases q with
      | nil => simp
      | cons b q =>
        by_cases hb : b = a <;> cases q <;> simp [hb]
    | _ :: _ :: _ => cases h
  | file name data rest ih =>
    cases p with
    | nil => cases h
    | cons a path =>
      simp only [put] at h
      split at h
      · rename_i ha
        split at h
        · rename_i hpath
          obtain rfl := Option.some.inj h
          cases q with
          | nil => simp
          | cons b q => by_cases hb : b = name <;> by_cases hq : q = [] <;> simp [hb, hq, ha, hpath]
        · cases h
      · rename_i hne
        obtain ⟨rest', hrest, rfl⟩ := Option.map_eq_some_iff.1 h
        cases q with
        | nil => simp
        | cons b q =>
          by_cases hb : b = name
          · simp [hb, Ne.symm hne]
          · simp only [entry, hb, if_false]
            exact ih hrest _
  | dir name children rest ihc ihr =>
    cases p with
    | nil => cases h
    | cons a path =>
      simp only [put] at h
      split at h
      · rename_i ha
        obtain ⟨children', hchildren, rfl⟩ := Option.map_eq_some_iff.1 h
        cases q with
        | nil => simp
        | cons b q => by_cases hb : b = name <;> simp [hb, ha, ihc hchildren]
      · rename_i hne
        obtain ⟨rest', hrest, rfl⟩ := Option.map_eq_some_iff.1 h
        cases q with
        | nil => simp
        | cons b q =>
          by_cases hb : b = name
          · simp [hb, Ne.symm hne]
          · simp only [entry, hb, if_false]
            exact ihr hrest _

theorem exists_put (hp : p ≠ []) (hparent : d.entry p.dropLast = some .dir) (hdir : d.entry p ≠ some .dir) :
    ∃ d', d.put p x = some d' := by
  induction d generalizing p with
  | nil =>
    match p with
    | [] => exact absurd rfl hp
    | [a] => exact ⟨_, rfl⟩
    | a :: b :: path => cases hparent
  | file name data rest ih =>
    match p with
    | [] => exact absurd rfl hp
    | a :: path =>
      by_cases ha : a = name
      · cases path with
        | nil => exact ⟨file name x rest, by simp [ha]⟩
        | cons b path => simp [ha] at hparent
      · obtain ⟨rest', hrest⟩ := ih (p := a :: path) hp
          (by cases path <;> simp_all) (by simpa [ha] using hdir)
        exact ⟨file name data rest', by simp [ha, hrest]⟩
  | dir name children rest ihc ihr =>
    match p with
    | [] => exact absurd rfl hp
    | a :: path =>
      by_cases ha : a = name
      · cases path with
        | nil => simp [ha] at hdir
        | cons b path =>
          obtain ⟨children', hchildren⟩ := ihc (p := b :: path) (List.cons_ne_nil _ _)
            (by simpa [ha] using hparent) (by simpa [ha] using hdir)
          exact ⟨dir name children' rest, by simp [ha, hchildren]⟩
      · obtain ⟨rest', hrest⟩ := ihr (p := a :: path) hp
          (by cases path <;> simp_all) (by simpa [ha] using hdir)
        exact ⟨dir name children rest', by simp [ha, hrest]⟩

/-- Nothing is made below a file. -/
theorem entry_ne_file_of_createDirAll (h : d.createDirAll p = some d') (hq : q <+: p) :
    d.entry q ≠ some (.file x) := by
  induction d generalizing p q d' with
  | nil => cases q <;> simp
  | file name data rest ih =>
    match p, q with
    | _, [] => simp
    | [], b :: q => simp at hq
    | a :: path, b :: q =>
      obtain rfl := (List.cons_prefix_cons.1 hq).1
      by_cases hb : b = name
      · simp [hb] at h
      · simp only [createDirAll, hb, if_false] at h
        obtain ⟨rest', hrest, -⟩ := Option.map_eq_some_iff.1 h
        simpa [hb] using ih hrest hq
  | dir name children rest ihc ihr =>
    match p, q with
    | _, [] => simp
    | [], b :: q => simp at hq
    | a :: path, b :: q =>
      obtain ⟨rfl, hpath⟩ := List.cons_prefix_cons.1 hq
      by_cases hb : b = name
      · simp only [createDirAll, hb, if_true] at h
        obtain ⟨children', hchildren, -⟩ := Option.map_eq_some_iff.1 h
        simpa [hb] using ihc hchildren hpath
      · simp only [createDirAll, hb, if_false] at h
        obtain ⟨rest', hrest, -⟩ := Option.map_eq_some_iff.1 h
        simpa [hb] using ihr hrest hq

/-- No directory is replaced by a file. -/
theorem entry_ne_dir_of_put (h : d.put p x = some d') : d.entry p ≠ some .dir := by
  induction d generalizing p d' with
  | nil =>
    match p with
    | [] => cases h
    | _ :: _ => simp
  | file name data rest ih =>
    match p with
    | [] => cases h
    | a :: path =>
      by_cases ha : a = name
      · by_cases hpath : path = [] <;> simp [ha, hpath]
      · simp only [put, ha, if_false] at h
        obtain ⟨rest', hrest, -⟩ := Option.map_eq_some_iff.1 h
        simpa [ha] using ih hrest
  | dir name children rest ihc ihr =>
    match p with
    | [] => cases h
    | a :: path =>
      by_cases ha : a = name
      · simp only [put, ha, if_true] at h
        obtain ⟨children', hchildren, -⟩ := Option.map_eq_some_iff.1 h
        simpa [ha] using ihc hchildren
      · simp only [put, ha, if_false] at h
        obtain ⟨rest', hrest, -⟩ := Option.map_eq_some_iff.1 h
        simpa [ha] using ihr hrest

/-- Files stay as they are when directories are made. -/
theorem file_createDirAll (h : d.createDirAll p = some d') :
    d'.entry q = some (.file x) ↔ d.entry q = some (.file x) := by
  rw [entry_createDirAll h]
  split
  · rename_i hq
    exact ⟨fun hc => by simp at hc, fun hx => absurd hx (entry_ne_file_of_createDirAll h hq)⟩
  · rfl

/-- Directories stay where a file is made. -/
theorem dir_put (h : d.put p x = some d') : d'.entry q = some .dir ↔ d.entry q = some .dir := by
  rw [entry_put h]
  split
  · rename_i hq
    exact ⟨fun hc => by simp at hc, fun hd => absurd (hq ▸ hd) (entry_ne_dir_of_put h)⟩
  · rfl

/-- What is at a path stands in directories. -/
theorem entry_prefix (h : d.entry q ≠ none) (hp : p <+: q) (hne : p ≠ q) : d.entry p = some .dir := by
  induction d generalizing p q with
  | nil =>
    cases q with
    | nil => exact absurd (List.prefix_nil.1 hp) hne
    | cons b q => exact absurd rfl h
  | file name data rest ih =>
    match p, q with
    | [], _ => simp
    | a :: p, [] => simp at hp
    | a :: p, b :: q =>
      obtain ⟨rfl, hpre⟩ := List.cons_prefix_cons.1 hp
      by_cases ha : a = name
      · have hq : q ≠ [] := by
          rintro rfl
          exact hne (by rw [List.prefix_nil.1 hpre])
        simp [ha, hq] at h
      · simp only [entry, ha, if_false] at h ⊢
        exact ih h hp hne
  | dir name children rest ihc ihr =>
    match p, q with
    | [], _ => simp
    | a :: p, [] => simp at hp
    | a :: p, b :: q =>
      obtain ⟨rfl, hpre⟩ := List.cons_prefix_cons.1 hp
      by_cases ha : a = name
      · simp only [entry, ha, if_true] at h ⊢
        exact ihc h hpre fun he => hne (by rw [he])
      · simp only [entry, ha, if_false] at h ⊢
        exact ihr h hp hne

/-! ## Names -/

/-- No two entries of a directory have one name. -/
def Distinct : Dir α → Prop
  | nil => True
  | file name _ rest => rest.entry [name] = none ∧ rest.Distinct
  | dir name children rest => rest.entry [name] = none ∧ children.Distinct ∧ rest.Distinct

theorem distinct_nest (p : List String) : (nest p : Dir α).Distinct := by
  induction p with
  | nil => trivial
  | cons a path ih => exact ⟨rfl, ih, trivial⟩

theorem Distinct.createDirAll (hd : d.Distinct) (h : d.createDirAll p = some d') : d'.Distinct := by
  induction d generalizing p d' with
  | nil =>
    cases p with
    | nil => exact (Option.some.inj h) ▸ hd
    | cons a path => exact (Option.some.inj h) ▸ distinct_nest (a :: path)
  | file name data rest ih =>
    cases p with
    | nil => exact (Option.some.inj h) ▸ hd
    | cons a path =>
      by_cases ha : a = name
      · simp [Dir.createDirAll, ha] at h
      · simp only [Dir.createDirAll, ha, if_false] at h
        obtain ⟨rest', hrest, rfl⟩ := Option.map_eq_some_iff.1 h
        refine ⟨?_, ih hd.2 hrest⟩
        rw [entry_createDirAll hrest, if_neg, hd.1]
        exact fun hp => ha (List.cons_prefix_cons.1 hp).1.symm
  | dir name children rest ihc ihr =>
    cases p with
    | nil => exact (Option.some.inj h) ▸ hd
    | cons a path =>
      by_cases ha : a = name
      · simp only [Dir.createDirAll, ha, if_true] at h
        obtain ⟨children', hchildren, rfl⟩ := Option.map_eq_some_iff.1 h
        exact ⟨hd.1, ihc hd.2.1 hchildren, hd.2.2⟩
      · simp only [Dir.createDirAll, ha, if_false] at h
        obtain ⟨rest', hrest, rfl⟩ := Option.map_eq_some_iff.1 h
        refine ⟨?_, hd.2.1, ihr hd.2.2 hrest⟩
        rw [entry_createDirAll hrest, if_neg, hd.1]
        exact fun hp => ha (List.cons_prefix_cons.1 hp).1.symm

theorem Distinct.put (hd : d.Distinct) (h : d.put p x = some d') : d'.Distinct := by
  induction d generalizing p d' with
  | nil =>
    match p with
    | [] => cases h
    | [a] => exact (Option.some.inj h) ▸ ⟨rfl, trivial⟩
    | _ :: _ :: _ => cases h
  | file name data rest ih =>
    cases p with
    | nil => cases h
    | cons a path =>
      by_cases ha : a = name
      · by_cases hpath : path = []
        · simp only [Dir.put, ha, hpath, if_true] at h
          exact (Option.some.inj h) ▸ hd
        · simp [Dir.put, ha, hpath] at h
      · simp only [Dir.put, ha, if_false] at h
        obtain ⟨rest', hrest, rfl⟩ := Option.map_eq_some_iff.1 h
        refine ⟨?_, ih hd.2 hrest⟩
        rw [entry_put hrest, if_neg, hd.1]
        exact fun hp => ha (List.cons.inj hp).1.symm
  | dir name children rest ihc ihr =>
    cases p with
    | nil => cases h
    | cons a path =>
      by_cases ha : a = name
      · simp only [Dir.put, ha, if_true] at h
        obtain ⟨children', hchildren, rfl⟩ := Option.map_eq_some_iff.1 h
        exact ⟨hd.1, ihc hd.2.1 hchildren, hd.2.2⟩
      · simp only [Dir.put, ha, if_false] at h
        obtain ⟨rest', hrest, rfl⟩ := Option.map_eq_some_iff.1 h
        refine ⟨?_, hd.2.1, ihr hd.2.2 hrest⟩
        rw [entry_put hrest, if_neg, hd.1]
        exact fun hp => ha (List.cons.inj hp).1.symm

end Dir

end Luchta.Framework
