import Mathlib.Data.List.Sort
import Mathlib.Order.Lattice

/-!
# Ordered maps

An ordered map is the list of its entries, strictly sorted by key, so that two maps that bind the
same keys to the same values are the same list.

* `BTreeMap.get?_insert`: the one lookup rule for insertion.
* `BTreeMap.mem_entries_iff`: the entries are exactly the bindings.
* `BTreeMap.ext_get?`, `BTreeMap.ofList_perm`: a map is determined by its bindings, whatever the
  order of insertion.
-/

namespace Luchta.Framework

structure BTreeMap (κ ν : Type*) [LinearOrder κ] where
  entries : List (κ × ν)
  sorted : (entries.map Prod.fst).Pairwise (· < ·)
  deriving DecidableEq

namespace BTreeMap

variable {κ ν : Type*} [LinearOrder κ]

@[ext] theorem ext {m m' : BTreeMap κ ν} (h : m.entries = m'.entries) : m = m' := by
  cases m; cases m'; congr

def empty : BTreeMap κ ν := ⟨[], .nil⟩

def get? (m : BTreeMap κ ν) (k : κ) : Option ν := (m.entries.find? fun e => e.1 = k).map Prod.snd

def containsKey (m : BTreeMap κ ν) (k : κ) : Bool := (m.get? k).isSome

def keys (m : BTreeMap κ ν) : List κ := m.entries.map Prod.fst

/-- Sorted insertion; a binding of the same key is replaced. -/
def insertEntry (k : κ) (v : ν) : List (κ × ν) → List (κ × ν)
  | [] => [(k, v)]
  | e :: l => if k = e.1 then (k, v) :: l
      else if k < e.1 then (k, v) :: e :: l
      else e :: insertEntry k v l

theorem mem_keys_insertEntry {k k' : κ} {v : ν} {l : List (κ × ν)} :
    k' ∈ (insertEntry k v l).map Prod.fst ↔ k' = k ∨ k' ∈ l.map Prod.fst := by
  induction l with
  | nil => simp [insertEntry]
  | cons e l ih =>
    rw [insertEntry]
    split
    · subst k
      simp
    · split
      · simp
      · simp only [List.map_cons, List.mem_cons, ih]
        tauto

theorem sorted_insertEntry {k : κ} {v : ν} {l : List (κ × ν)}
    (h : (l.map Prod.fst).Pairwise (· < ·)) :
    ((insertEntry k v l).map Prod.fst).Pairwise (· < ·) := by
  induction l with
  | nil => simp [insertEntry]
  | cons e l ih =>
    obtain ⟨he, hl⟩ := List.pairwise_cons.1 h
    rw [insertEntry]
    split
    · subst k
      exact List.pairwise_cons.2 ⟨he, hl⟩
    · rename_i hne
      split
      · rename_i hlt
        refine List.pairwise_cons.2 ⟨fun a ha => ?_, h⟩
        rcases List.mem_cons.1 ha with rfl | ha
        · exact hlt
        · exact hlt.trans (he a ha)
      · rename_i hlt
        refine List.pairwise_cons.2 ⟨fun a ha => ?_, ih hl⟩
        rcases mem_keys_insertEntry.1 ha with rfl | ha
        · exact lt_of_le_of_ne (not_lt.1 hlt) (Ne.symm hne)
        · exact he a ha

def insert (m : BTreeMap κ ν) (k : κ) (v : ν) : BTreeMap κ ν where
  entries := insertEntry k v m.entries
  sorted := sorted_insertEntry m.sorted

/-- `collect`: insert the pairs from the first to the last. -/
def ofList (l : List (κ × ν)) : BTreeMap κ ν := l.foldl (fun m e => m.insert e.1 e.2) empty

@[simp] theorem get?_empty (k : κ) : (empty : BTreeMap κ ν).get? k = none := rfl

theorem mem_insertEntry {k : κ} {v : ν} {l : List (κ × ν)} {e : κ × ν}
    (h : (l.map Prod.fst).Pairwise (· < ·)) :
    e ∈ insertEntry k v l ↔ e = (k, v) ∨ e.1 ≠ k ∧ e ∈ l := by
  induction l with
  | nil => simp [insertEntry]
  | cons a l ih =>
    obtain ⟨ha, hl⟩ := List.pairwise_cons.1 h
    have hgt : ∀ e ∈ l, a.1 < e.1 := fun e he => ha _ (List.mem_map_of_mem he)
    have hne : k ≤ a.1 → ∀ e ∈ l, e.1 ≠ k := fun hk e he => (lt_of_le_of_lt hk (hgt e he)).ne'
    rw [insertEntry]
    split
    · rename_i hlt
      have := hne hlt.le
      simp only [List.mem_cons]
      grind
    · split
      · rename_i heq
        have := hne heq.le
        simp only [List.mem_cons]
        grind
      · simp only [List.mem_cons, ih hl]
        grind

theorem mem_entries_iff {m : BTreeMap κ ν} {k : κ} {v : ν} :
    (k, v) ∈ m.entries ↔ m.get? k = some v := by
  have hnd : (m.entries.map Prod.fst).Nodup := m.sorted.imp ne_of_lt
  rw [get?, Option.map_eq_some_iff]
  constructor
  · intro h
    cases hf : m.entries.find? fun e => e.1 = k with
    | none => exact absurd (List.find?_eq_none.1 hf _ h) (by simp)
    | some e =>
      refine ⟨e, rfl, ?_⟩
      rw [List.inj_on_of_nodup_map hnd (List.mem_of_find?_eq_some hf) h
        (by simpa using List.find?_some hf)]
  · rintro ⟨e, hf, rfl⟩
    obtain rfl : e.1 = k := by simpa using List.find?_some hf
    exact List.mem_of_find?_eq_some hf

/-- Insertion binds its key and keeps every other binding. -/
theorem get?_insert (m : BTreeMap κ ν) (k k' : κ) (v : ν) :
    (m.insert k v).get? k' = if k' = k then some v else m.get? k' := by
  ext w
  rw [← mem_entries_iff, insert, mem_insertEntry m.sorted]
  split
  · simp [*, eq_comm]
  · simp [*, mem_entries_iff]

theorem mem_keys_iff {m : BTreeMap κ ν} {k : κ} : k ∈ m.keys ↔ ∃ v, m.get? k = some v := by
  simp only [keys, List.mem_map, Prod.exists, exists_and_right, exists_eq_right, mem_entries_iff]

/-- Sorted entries leave no freedom: the bindings determine the map. -/
theorem ext_get? {m m' : BTreeMap κ ν} (h : ∀ k, m.get? k = m'.get? k) : m = m' := by
  have hnd : ∀ m : BTreeMap κ ν, m.entries.Nodup := fun m =>
    .of_map Prod.fst (m.sorted.imp ne_of_lt)
  have hperm : m.entries.Perm m'.entries :=
    (List.perm_ext_iff_of_nodup (hnd m) (hnd m')).2 fun ⟨k, v⟩ => by
      rw [mem_entries_iff, mem_entries_iff, h]
  have hsort : ∀ m : BTreeMap κ ν, m.entries.Pairwise fun a b => a.1 < b.1 := fun m =>
    List.pairwise_map.1 m.sorted
  refine ext (hperm.eq_of_pairwise (fun a b _ _ hab hba => ?_) (hsort m) (hsort m'))
  exact absurd (lt_trans hab hba) (lt_irrefl _)

/-- Binding a key to what it is bound to changes nothing. -/
theorem insert_of_get? {m : BTreeMap κ ν} {k : κ} {v : ν} (h : m.get? k = some v) : m.insert k v = m := by
  refine ext_get? fun k' => ?_
  rw [get?_insert]
  split
  · rename_i hk
    rw [hk, h]
  · rfl

/-! ## Collecting -/

/-- Collecting binds a key to what all pairs with that key agree on. -/
theorem get?_ofList_of_agree {l : List (κ × ν)} {k : κ} {o : Option ν}
    (h : ∀ v, (k, v) ∈ l ↔ o = some v) : (ofList l).get? k = o := by
  have hfold : ∀ (l : List (κ × ν)) (m : BTreeMap κ ν), (∀ v, (k, v) ∈ l → o = some v) →
      ((∃ v, (k, v) ∈ l) ∨ m.get? k = o) → (l.foldl (fun m e => m.insert e.1 e.2) m).get? k = o := by
    intro l
    induction l with
    | nil => exact fun m _ hor => hor.resolve_left fun ⟨_, hv⟩ => List.not_mem_nil hv
    | cons e l ih =>
      intro m hl hor
      refine ih _ (fun v hv => hl v (List.mem_cons_of_mem _ hv)) ?_
      rw [get?_insert]
      by_cases hk : k = e.1
      · rw [if_pos hk, hl e.2 (List.mem_cons.2 (.inl (by rw [hk])))]
        exact .inr rfl
      · rw [if_neg hk]
        refine hor.imp_left fun ⟨v, hv⟩ => ⟨v, (List.mem_cons.1 hv).resolve_left fun heq => hk ?_⟩
        rw [← heq]
  refine hfold l empty (fun v => (h v).1) ?_
  cases ho : o with
  | none => exact .inr rfl
  | some v => exact .inl ⟨v, (h v).2 ho⟩

/-- Collecting pairs with distinct keys binds exactly those pairs. -/
theorem get?_ofList {l : List (κ × ν)} (hl : (l.map Prod.fst).Nodup) {k : κ} {v : ν} :
    (ofList l).get? k = some v ↔ (k, v) ∈ l := by
  have hfold : ∀ (l : List (κ × ν)) (m : BTreeMap κ ν), (l.map Prod.fst).Nodup →
      ((l.foldl (fun m e => m.insert e.1 e.2) m).get? k = some v ↔
        (k, v) ∈ l ∨ k ∉ l.map Prod.fst ∧ m.get? k = some v) := by
    intro l
    induction l with
    | nil => simp
    | cons e l ih =>
      intro m hl
      obtain ⟨hnot, hl⟩ := List.nodup_cons.1 hl
      have hv : ∀ w, (e.1, w) ∉ l := fun w hw => hnot (List.mem_map.2 ⟨_, hw, rfl⟩)
      rw [List.foldl_cons, ih _ hl, get?_insert]
      by_cases hk : k = e.1
      · subst hk
        simp [hnot, hv, Prod.ext_iff, eq_comm]
      · simp [hk, Prod.ext_iff]
  rw [ofList, hfold l empty hl]
  simp

/-- The order in which pairs with distinct keys are supplied leaves no trace. -/
theorem ofList_perm {l l' : List (κ × ν)} (hl : (l.map Prod.fst).Nodup) (h : l.Perm l') :
    ofList l = ofList l' := by
  have hl' : (l'.map Prod.fst).Nodup := (h.map Prod.fst).nodup_iff.1 hl
  refine ext_get? fun k => Option.ext fun v => ?_
  rw [get?_ofList hl, get?_ofList hl', h.mem_iff]

end BTreeMap

end Luchta.Framework
