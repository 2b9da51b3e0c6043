import Mathlib.Data.List.AList

/-!
# Hash maps

A hash map is an association list without duplicate keys (`AList`). Nothing may rely on the
order in which it is iterated, so code that iterates takes a `RandomState`: an arbitrary
permutation of what it is handed.

* `HashMap.lookup_insert_if`: one lookup rule for insertion.
* `HashMap.lookup_insertAll`: inserting pairs with distinct keys overrides what was there.
* `HashMap.lookup_ofList`: collecting pairs with distinct keys binds each of them.
* `HashMap.ext_of_keys`: maps iterated in the same order, with the same bindings, are equal.
* `HashMap.lookup_pushAll`: `entry(k).or_default().push(v)` over a list groups by key.
-/

namespace Luchta.Framework

abbrev HashMap (κ ν : Type*) := AList fun _ : κ => ν

/-- The seed of a hash map, as far as a program can see it: an iteration order. -/
structure RandomState where
  permute : ∀ {α : Type}, List α → List α
  perm : ∀ {α : Type} (l : List α), (permute l).Perm l

@[simp] theorem RandomState.mem_permute (rs : RandomState) {α : Type} {l : List α} {a : α} :
    a ∈ rs.permute l ↔ a ∈ l := (rs.perm l).mem_iff

/-- Iteration in the order of the entries. -/
def RandomState.id : RandomState := ⟨fun l => l, fun _ => .refl _⟩

namespace HashMap

variable {κ ν : Type*} [DecidableEq κ]

theorem lookup_insert_if (m : HashMap κ ν) (k k' : κ) (v : ν) :
    (m.insert k v).lookup k' = if k' = k then some v else m.lookup k' := by
  split
  · subst k'
    exact AList.lookup_insert m
  · exact AList.lookup_insert_ne ‹_›

theorem lookup_insert_eq_update (m : HashMap κ ν) (k : κ) (v : ν) :
    (fun k' => (m.insert k v).lookup k') = Function.update (fun k' => m.lookup k') k (some v) := by
  funext k'
  rw [lookup_insert_if, Function.update_apply]

theorem lookup_isSome_insert (m : HashMap κ ν) (k k' : κ) (v : ν) :
    ((m.insert k v).lookup k').isSome ↔ k' = k ∨ (m.lookup k').isSome := by
  rw [AList.lookup_isSome, AList.lookup_isSome, AList.mem_insert]

/-- Insert the pairs from the first to the last. -/
def insertAll (m : HashMap κ ν) (l : List (κ × ν)) : HashMap κ ν :=
  l.foldl (fun m e => m.insert e.1 e.2) m

/-- `collect`. -/
def ofList (l : List (κ × ν)) : HashMap κ ν := l.foldl (fun m e => m.insert e.1 e.2) ∅

theorem lookup_foldl_insert {l : List (κ × ν)} (m : HashMap κ ν) (hl : (l.map Prod.fst).Nodup)
    (k : κ) : (l.foldl (fun m e => AList.insert e.1 e.2 m) m).lookup k =
      (l.find? fun e => e.1 = k).elim (m.lookup k) fun e => some e.2 := by
  induction l generalizing m with
  | nil => rfl
  | cons e l ih =>
    obtain ⟨hnot, hl⟩ := List.nodup_cons.1 hl
    rw [List.foldl_cons, ih _ hl, lookup_insert_if, List.find?_cons]
    by_cases hk : e.1 = k
    · have : l.find? (fun e => e.1 = k) = none := by
        refine List.find?_eq_none.2 fun e' he' => ?_
        rintro h
        exact hnot (List.mem_map.2 ⟨e', he', by simpa [hk] using h⟩)
      simp [hk, this]
    · simp [hk, Ne.symm hk]

/-- The pairs inserted take precedence over the bindings that were there. -/
theorem lookup_insertAll (m : HashMap κ ν) {l : List (κ × ν)} (hl : (l.map Prod.fst).Nodup) {k : κ}
    {o : Option ν} (ho : ∀ v, (k, v) ∈ l ↔ o = some v) :
    (m.insertAll l).lookup k = o.or (m.lookup k) := by
  rw [insertAll, lookup_foldl_insert _ hl]
  cases hf : l.find? fun e => e.1 = k with
  | none =>
    have hnone : o = none := Option.eq_none_iff_forall_ne_some.2 fun v hv =>
      List.find?_eq_none.1 hf _ ((ho v).2 hv) (by simp)
    simp [hnone]
  | some e =>
    obtain rfl : e.1 = k := by simpa using List.find?_some hf
    simp [(ho e.2).1 (List.mem_of_find?_eq_some hf)]

/-- The same for the bindings of another map, under renamed keys. -/
theorem lookup_insertAll_map {κ' : Type*} (m : HashMap κ ν) {l : List (Σ _ : κ', ν)}
    (hl : (l.map Sigma.fst).Nodup) {f : κ' → κ}
    (hf : ∀ a ∈ l, ∀ b ∈ l, f a.1 = f b.1 → a.1 = b.1) {k : κ} {o : Option ν}
    (ho : ∀ v, (∃ k', ⟨k', v⟩ ∈ l ∧ f k' = k) ↔ o = some v) :
    (m.insertAll (l.map fun e => (f e.1, e.2))).lookup k = o.or (m.lookup k) := by
  refine lookup_insertAll m ?_ fun v => ?_
  · rw [List.map_map]
    refine List.Nodup.map_on (fun a ha b hb hab => ?_) (.of_map _ hl)
    exact List.inj_on_of_nodup_map hl ha hb (hf a ha b hb hab)
  · rw [← ho, List.mem_map]
    constructor
    · rintro ⟨⟨k', w⟩, hmem, heq⟩
      obtain ⟨rfl, rfl⟩ := Prod.mk.inj heq
      exact ⟨k', hmem, rfl⟩
    · rintro ⟨k', hmem, rfl⟩
      exact ⟨⟨k', v⟩, hmem, rfl⟩

theorem lookup_ofList {l : List (κ × ν)} (hl : (l.map Prod.fst).Nodup) {k : κ} {v : ν} :
    (ofList l).lookup k = some v ↔ (k, v) ∈ l := by
  rw [ofList, lookup_foldl_insert _ hl]
  cases hf : l.find? fun e => e.1 = k with
  | none =>
    simp only [AList.lookup_empty, Option.elim_none, reduceCtorEq, false_iff]
    exact fun h => List.find?_eq_none.1 hf _ h (by simp)
  | some e =>
    have hmem := List.mem_of_find?_eq_some hf
    obtain rfl : e.1 = k := by simpa using List.find?_some hf
    simp only [Option.elim_some, Option.some.injEq]
    refine ⟨fun h => h ▸ hmem, fun h => ?_⟩
    have := List.inj_on_of_nodup_map hl hmem h rfl
    rw [this]

/-! ## Updates in place -/

/-- Every value replaced by what a function of its key makes of it. -/
def mapWithKey (f : κ → ν → ν) (m : HashMap κ ν) : HashMap κ ν where
  entries := m.entries.map fun e => ⟨e.1, f e.1 e.2⟩
  nodupKeys := by
    show (List.map _ (List.map _ _)).Nodup
    rw [List.map_map]
    exact m.keys_nodup

/-- `get_mut`, and an update of what it finds. -/
def modify (m : HashMap κ ν) (k : κ) (f : ν → ν) : HashMap κ ν :=
  m.mapWithKey fun k' v => if k' = k then f v else v

omit [DecidableEq κ] in
theorem keys_mapWithKey (f : κ → ν → ν) (m : HashMap κ ν) : (m.mapWithKey f).keys = m.keys := by
  show List.map _ (List.map _ _) = List.map _ _
  rw [List.map_map]
  rfl

theorem lookup_mapWithKey (f : κ → ν → ν) (m : HashMap κ ν) (k : κ) :
    (m.mapWithKey f).lookup k = (m.lookup k).map (f k) := by
  ext v
  rw [Option.map_eq_some_iff]
  constructor
  · intro h
    have hmem : (⟨k, v⟩ : Σ _ : κ, ν) ∈ (m.mapWithKey f).entries := AList.mem_lookup_iff.1 h
    obtain ⟨⟨k', w⟩, hw, heq⟩ := List.mem_map.1 hmem
    cases heq
    exact ⟨w, AList.mem_lookup_iff.2 hw, rfl⟩
  · rintro ⟨w, hw, rfl⟩
    exact AList.mem_lookup_iff.2 (List.mem_map.2 ⟨⟨k, w⟩, AList.mem_lookup_iff.1 hw, rfl⟩)

theorem keys_modify (m : HashMap κ ν) (k : κ) (f : ν → ν) : (m.modify k f).keys = m.keys :=
  keys_mapWithKey _ m

theorem lookup_modify (m : HashMap κ ν) (k k' : κ) (f : ν → ν) :
    (m.modify k f).lookup k' = if k' = k then (m.lookup k').map f else m.lookup k' := by
  rw [modify, lookup_mapWithKey]
  split
  · rfl
  · exact Option.map_id'

/-- Maps with their keys in the same order and the same bindings are the same, order included. -/
theorem ext_of_keys {m m' : HashMap κ ν} (hkeys : m.keys = m'.keys)
    (h : ∀ k, m.lookup k = m'.lookup k) : m = m' := by
  have hentries : ∀ {l l' : List (Σ _ : κ, ν)}, l.keys.Nodup → l.keys = l'.keys →
      (∀ k, l.dlookup k = l'.dlookup k) → l = l' := by
    intro l l' hl hk hlookup
    induction l generalizing l' with
    | nil =>
      cases l' with
      | nil => rfl
      | cons e l' => cases hk
    | cons e l ih =>
      cases l' with
      | nil => cases hk
      | cons e' l' =>
        obtain ⟨k, v⟩ := e
        obtain ⟨k', v'⟩ := e'
        rw [List.keys_cons, List.keys_cons] at hk
        obtain ⟨hkk, hrest⟩ := List.cons_eq_cons.1 hk
        dsimp only at hkk
        subst hkk
        have hv := hlookup k
        rw [List.dlookup_cons_eq, List.dlookup_cons_eq] at hv
        rw [List.keys_cons] at hl
        obtain ⟨hnot, hnd⟩ := List.nodup_cons.1 hl
        rw [Option.some.inj hv, ih hnd hrest fun k'' => ?_]
        by_cases hk'' : k'' = k
        · rw [hk'', List.dlookup_eq_none.2 hnot, List.dlookup_eq_none.2 (hrest ▸ hnot)]
        · have := hlookup k''
          rwa [List.dlookup_cons_ne _ _ hk'', List.dlookup_cons_ne _ _ hk''] at this
  exact AList.ext (hentries m.keys_nodup hkeys h)

/-- The keys removed, from the first to the last. -/
def eraseAll (m : HashMap κ ν) (ks : List κ) : HashMap κ ν := ks.foldl (fun m k => m.erase k) m

theorem lookup_eraseAll (m : HashMap κ ν) (ks : List κ) (k : κ) :
    (m.eraseAll ks).lookup k = if k ∈ ks then none else m.lookup k := by
  induction ks generalizing m with
  | nil => simp [eraseAll]
  | cons k' ks ih =>
    rw [eraseAll, List.foldl_cons, ← eraseAll, ih]
    by_cases hk : k = k'
    · subst hk
      simp
    · simp [hk, AList.lookup_erase_ne hk]

/-- What is left, and in which order, depends only on which keys are removed. -/
theorem keys_eraseAll (m : HashMap κ ν) (ks : List κ) :
    (m.eraseAll ks).keys = m.keys.filter fun k => k ∉ ks := by
  induction ks generalizing m with
  | nil => simp [eraseAll]
  | cons k' ks ih =>
    rw [eraseAll, List.foldl_cons, ← eraseAll, ih, AList.keys_erase,
      m.keys_nodup.erase_eq_filter, List.filter_filter]
    refine List.filter_congr fun k _ => ?_
    by_cases hk : k = k'
    · simp [hk]
    · simp [hk]

/-! ## Iteration -/

theorem mem_permute_entries (rs : RandomState) {κ ν : Type} [DecidableEq κ] {m : HashMap κ ν} {k : κ}
    {v : ν} : ⟨k, v⟩ ∈ rs.permute m.entries ↔ m.lookup k = some v := by
  rw [rs.mem_permute, ← AList.mem_lookup_iff]
  rfl

theorem nodup_keys_permute (rs : RandomState) {κ ν : Type} (m : HashMap κ ν) :
    ((rs.permute m.entries).map Sigma.fst).Nodup :=
  ((rs.perm m.entries).map Sigma.fst).nodup_iff.2 m.keys_nodup

/-- `entry(k).or_default().push(v)`. -/
def push (m : HashMap κ (List ν)) (k : κ) (v : ν) : HashMap κ (List ν) :=
  m.insert k ((m.lookup k).getD [] ++ [v])

def pushAll (m : HashMap κ (List ν)) (l : List (κ × ν)) : HashMap κ (List ν) :=
  l.foldl (fun m e => push m e.1 e.2) m

theorem lookup_pushAll {l : List (κ × ν)} {m : HashMap κ (List ν)} {k : κ} {vs : List ν}
    (hm : m.lookup k = some vs) :
    (pushAll m l).lookup k = some (vs ++ (l.filter fun e => e.1 = k).map Prod.snd) := by
  induction l generalizing m vs with
  | nil => simpa [pushAll] using hm
  | cons e l ih =>
    rw [pushAll, List.foldl_cons, ← pushAll]
    by_cases hk : e.1 = k
    · have hpush : (push m e.1 e.2).lookup k = some (vs ++ [e.2]) := by
        subst hk
        simp [push, hm]
      rw [ih hpush, List.filter_cons_of_pos (by simpa)]
      simp
    · have hpush : (push m e.1 e.2).lookup k = some vs := by
        rw [push, lookup_insert_if, if_neg (Ne.symm hk), hm]
      rw [ih hpush, List.filter_cons_of_neg (by simpa)]

end HashMap

end Luchta.Framework
