import Luchta.Framework.Newest
import Mathlib.Data.Finset.Max

/-!
# Bounded newest-first lists converge

What a bounded newest-first list holds in the end depends on what it was shown, not on the order, and
lists of parts of a history merge to the list of the whole.

* `observeAll_idem`: showing the same items again changes nothing, whatever the list was before.
* `Summary`: what a list that was shown a history holds of it; `Summary.append`: lists of two
  histories merge to a list of both.
* `Summary.eq_newestOf`: there is one such list, the newest item of each identity, cut to `k`.
-/

namespace Luchta.Framework.Newest

variable {α ι κ : Type*} [DecidableEq ι] [LinearOrder κ] {ident : α → ι} {key : α → κ} {k : Nat}
  {l m r : List α} {a b c : α} {x : κ}

/-! ## Covered items -/

def newer (key : α → κ) (l : List α) (x : κ) : List α := l.filter fun b => x < key b

/-- The list has an item of the same identity that is no older, or `k` newer ones. -/
def Covered (ident : α → ι) (key : α → κ) (k : Nat) (l : List α) (c : α) : Prop :=
  (∃ b ∈ l, ident b = ident c ∧ key c ≤ key b) ∨ k ≤ (newer key l (key c)).length

omit [DecidableEq ι] in
theorem mem_newer : b ∈ newer key l x ↔ b ∈ l ∧ x < key b := by
  simp [newer]

theorem exists_mem_upsert (a : α) (l : List α) :
    ∃ b ∈ (upsert ident key a l).1, ident b = ident a ∧ key a ≤ key b := by
  induction l with
  | nil => exact ⟨a, List.mem_singleton_self a, rfl, le_rfl⟩
  | cons b l ih =>
    unfold upsert
    split
    · rename_i hid
      split
      · exact ⟨a, List.mem_cons_self, rfl, le_rfl⟩
      · rename_i hlt
        exact ⟨b, List.mem_cons_self, hid, not_lt.1 hlt⟩
    · obtain ⟨c, hc, h⟩ := ih
      exact ⟨c, List.mem_cons_of_mem _ hc, h⟩

/-- An upsert replaces items by newer ones only. -/
theorem exists_mem_upsert_of_mem (a : α) (hb : b ∈ l) :
    ∃ c ∈ (upsert ident key a l).1, ident c = ident b ∧ key b ≤ key c := by
  induction l with
  | nil => contradiction
  | cons d l ih =>
    unfold upsert
    split
    · rename_i hid
      split
      · rename_i hlt
        rcases List.mem_cons.1 hb with rfl | hb
        · exact ⟨a, List.mem_cons_self, hid.symm, hlt.le⟩
        · exact ⟨b, List.mem_cons_of_mem _ hb, rfl, le_rfl⟩
      · exact ⟨b, hb, rfl, le_rfl⟩
    · rcases List.mem_cons.1 hb with rfl | hb
      · exact ⟨b, List.mem_cons_self, rfl, le_rfl⟩
      · obtain ⟨c, hc, h⟩ := ih hb
        exact ⟨c, List.mem_cons_of_mem _ hc, h⟩

theorem length_newer_upsert (a : α) (l : List α) (x : κ) :
    (newer key l x).length ≤ (newer key (upsert ident key a l).1 x).length := by
  induction l with
  | nil => exact Nat.zero_le _
  | cons b l ih =>
    unfold upsert
    split
    · split
      · rename_i hlt
        by_cases hx : x < key b
        · simp [newer, hx, hx.trans hlt]
        · unfold newer
          rw [List.filter_cons_of_neg (by simpa using hx)]
          exact ((List.sublist_cons_self a l).filter _).length_le
      · exact le_rfl
    · unfold newer at ih ⊢
      rw [List.filter_cons, List.filter_cons]
      split
      · exact Nat.succ_le_succ ih
      · exact ih

theorem Covered.upsert (h : Covered ident key k l c) (a : α) :
    Covered ident key k (upsert ident key a l).1 c := by
  rcases h with ⟨b, hb, hid, hle⟩ | h
  · obtain ⟨d, hd, hid', hle'⟩ : ∃ d ∈ (Newest.upsert ident key a l).1,
        ident d = ident b ∧ key b ≤ key d :=
      exists_mem_upsert_of_mem a hb
    exact .inl ⟨d, hd, hid'.trans hid, hle.trans hle'⟩
  · exact .inr (h.trans (length_newer_upsert a l _))

/-- If `k` items of a list are newer than `x`, those kept of it are newer than `x`. -/
theorem newer_take (hl : l.Pairwise fun a b => key b ≤ key a) (h : k ≤ (newer key l x).length) :
    (l.take k).length = k ∧ ∀ b ∈ l.take k, x < key b := by
  have hlen : (l.take k).length = k := by
    rw [List.length_take]
    exact min_eq_left (h.trans (List.length_filter_le _ _))
  refine ⟨hlen, fun b hb => ?_⟩
  by_contra hbx
  -- then nothing of what was cut off is newer, and one of the `k` kept is not
  rw [← List.take_append_drop k l, List.pairwise_append] at hl
  have hdrop : newer key (l.drop k) x = [] := List.filter_eq_nil_iff.2 fun d hd => by
    have := hl.2.2 b hb d hd
    simpa using this.trans (not_lt.1 hbx)
  have htake : (newer key (l.take k) x).length < (l.take k).length :=
    List.length_filter_lt_length_iff_exists.2 ⟨b, hb, by simpa using hbx⟩
  rw [newer, ← List.take_append_drop k l, List.filter_append, List.length_append] at h
  unfold newer at hdrop htake
  rw [hdrop, List.length_nil] at h
  omega

theorem pairwise_le_sorted (l : List α) :
    (sortBy (fun b => OrderDual.toDual (key b)) l).Pairwise fun a b => key b ≤ key a :=
  (pairwise_le_sortBy (fun b => OrderDual.toDual (key b)) l).imp OrderDual.toDual_le_toDual.1

section Key

variable (hkey : ∀ a b : α, key a = key b → ident a = ident b)

include hkey

omit [DecidableEq ι] in
/-- Sorting and cutting keeps what is covered. -/
theorem Covered.take_sortBy (h : Covered ident key k l c) :
    Covered ident key k ((sortBy (fun b => OrderDual.toDual (key b)) l).take k) c := by
  have hsorted : (sortBy (fun b => OrderDual.toDual (key b)) l).Pairwise fun a b => key b ≤ key a :=
    pairwise_le_sorted l
  have hperm := sortBy_perm (fun b => OrderDual.toDual (key b)) l
  generalize sortBy (fun b => OrderDual.toDual (key b)) l = m at *
  rcases h with ⟨b, hb, hid, hle⟩ | h
  · have hbm : b ∈ m.take k ∨ b ∈ m.drop k := by
      rw [← List.mem_append, List.take_append_drop]
      exact hperm.mem_iff.2 hb
    rcases hbm with hbm | hbm
    · exact .inl ⟨b, hbm, hid, hle⟩
    · -- the item was cut off, behind `k` others that are no older
      have hall : ∀ d ∈ m.take k, key b ≤ key d := fun d hd => by
        rw [← List.take_append_drop k m, List.pairwise_append] at hsorted
        exact hsorted.2.2 d hd b hbm
      by_cases heq : ∃ d ∈ m.take k, key d = key b
      · obtain ⟨d, hd, hdb⟩ := heq
        exact .inl ⟨d, hd, (hkey d b hdb).trans hid, hdb ▸ hle⟩
      · push Not at heq
        have hfilter : newer key (m.take k) (key c) = m.take k := List.filter_eq_self.2 fun d hd => by
          simpa using hle.trans_lt (lt_of_le_of_ne (hall d hd) (heq d hd).symm)
        have hlen : (m.take k).length = k := by
          have := List.length_pos_of_mem hbm
          rw [List.length_drop] at this
          rw [List.length_take]
          omega
        exact .inr (by rw [hfilter, hlen])
  · have hnewer : k ≤ (newer key m (key c)).length := by
      rw [newer, (hperm.filter _).length_eq]
      exact h
    obtain ⟨hlen, hall⟩ := newer_take hsorted hnewer
    refine .inr ?_
    rw [newer, List.filter_eq_self.2 fun d hd => decide_eq_true (hall d hd), hlen]

theorem covered_observe_self (a : α) (l : List α) : Covered ident key k (observe ident key k l a).1 a :=
  Covered.take_sortBy hkey (.inl (exists_mem_upsert a l))

theorem Covered.observe (h : Covered ident key k l c) (a : α) :
    Covered ident key k (observe ident key k l a).1 c :=
  Covered.take_sortBy hkey (h.upsert a)

end Key

/-! ## Showing items again -/

/-- Newest first, and no more than `k`. -/
structure Sorted (key : α → κ) (k : Nat) (l : List α) : Prop where
  sorted : l.Pairwise fun a b => key b ≤ key a
  length_le : l.length ≤ k

theorem sorted_observe (a : α) (l : List α) : Sorted key k (observe ident key k l a).1 :=
  ⟨(pairwise_le_sorted _).sublist (List.take_sublist _ _), List.length_take_le _ _⟩

omit [DecidableEq ι] in
theorem sortBy_of_pairwise_le (h : l.Pairwise fun a b => key b ≤ key a) :
    sortBy (fun b => OrderDual.toDual (key b)) l = l :=
  (h.imp OrderDual.toDual_le_toDual.2).insertionSort_eq

/-- In a sorted list the first item of an identity is its newest one. -/
theorem upsert_of_covered (h : l.Pairwise fun a b => key b ≤ key a) (hb : b ∈ l)
    (hid : ident b = ident a) (hle : key a ≤ key b) : upsert ident key a l = (l, false) := by
  induction l with
  | nil => contradiction
  | cons c l ih =>
    obtain ⟨hc, hl⟩ := List.pairwise_cons.1 h
    unfold upsert
    rcases List.mem_cons.1 hb with rfl | hb
    · rw [if_pos hid, if_neg (not_lt.2 hle)]
    · split
      · rw [if_neg (not_lt.2 (hle.trans (hc b hb)))]
      · rw [ih hl hb]

/-- A covered item leaves the list as it is. -/
theorem observe_of_covered (hl : Sorted key k l) (h : Covered ident key k l a) :
    (observe ident key k l a).1 = l := by
  have htake : l.take k = l := List.take_of_length_le hl.length_le
  have hin : (∃ b ∈ l, ident b = ident a ∧ key a ≤ key b) → (observe ident key k l a).1 = l := by
    rintro ⟨b, hb, hid, hle⟩
    show List.take k (sortBy _ (upsert ident key a l).1) = l
    rw [upsert_of_covered hl.sorted hb hid hle, sortBy_of_pairwise_le hl.sorted, htake]
  rcases h with h | h
  · exact hin h
  · obtain ⟨hlen, hall⟩ := newer_take hl.sorted h
    rw [htake] at hlen hall
    by_cases hmem : ident a ∈ l.map ident
    · obtain ⟨b, hb, hid⟩ := List.mem_map.1 hmem
      exact hin ⟨b, hb, hid, (hall b hb).le⟩
    · have hsorted : (l ++ [a]).Pairwise fun a b => key b ≤ key a :=
        List.pairwise_append.2 ⟨hl.sorted, List.pairwise_singleton _ _, fun b hb c hc => by
          rw [List.mem_singleton.1 hc]
          exact (hall b hb).le⟩
      show List.take k (sortBy _ (upsert ident key a l).1) = l
      rw [upsert_fresh hmem, sortBy_of_pairwise_le hsorted, List.take_append_of_le_length hlen.ge,
        htake]

/-- Show all items of a list. -/
def observeAll (ident : α → ι) (key : α → κ) (k : Nat) (l as : List α) : List α :=
  as.foldl (fun l a => (observe ident key k l a).1) l

theorem observeAll_of_covered (as : List α) (hl : Sorted key k l)
    (h : ∀ a ∈ as, Covered ident key k l a) : observeAll ident key k l as = l := by
  induction as with
  | nil => rfl
  | cons a as ih =>
    obtain ⟨ha, has⟩ := List.forall_mem_cons.1 h
    show observeAll ident key k (observe ident key k l a).1 as = l
    rw [observe_of_covered hl ha, ih has]

theorem observeAll_covered (hkey : ∀ a b : α, key a = key b → ident a = ident b) (as : List α)
    (l : List α) : (∀ c, Covered ident key k l c → Covered ident key k (observeAll ident key k l as) c) ∧
      (∀ a ∈ as, Covered ident key k (observeAll ident key k l as) a) ∧
      (Sorted key k l ∨ as ≠ [] → Sorted key k (observeAll ident key k l as)) := by
  induction as generalizing l with
  | nil => exact ⟨fun c h => h, nofun, fun h => h.resolve_right (fun h => h rfl)⟩
  | cons a as ih =>
    obtain ⟨hkeep, hall, hsorted⟩ := ih (observe ident key k l a).1
    refine ⟨fun c h => hkeep c (h.observe hkey a), List.forall_mem_cons.2 ⟨?_, hall⟩, fun _ => ?_⟩
    · exact hkeep a (covered_observe_self hkey a l)
    · exact hsorted (.inl (sorted_observe a l))

/-- Showing the same items again changes nothing. -/
theorem observeAll_idem (hkey : ∀ a b : α, key a = key b → ident a = ident b) (l as : List α) :
    observeAll ident key k (observeAll ident key k l as) as = observeAll ident key k l as := by
  obtain ⟨-, hall, hsorted⟩ := observeAll_covered (k := k) hkey as l
  by_cases has : as = []
  · rw [has]
    rfl
  · exact observeAll_of_covered as (hsorted (.inr has)) hall

/-! ## Histories -/

/-- What a normal list that was shown a history holds of it. -/
structure Summary (ident : α → ι) (key : α → κ) (k : Nat) (history l : List α) : Prop where
  normal : Normal ident key k l
  newest : ∀ b ∈ l, b ∈ history ∧ ∀ c ∈ history, ident c = ident b → key c ≤ key b
  covered : ∀ c ∈ history, Covered ident key k l c

omit [DecidableEq ι] in
theorem Summary.nil : Summary ident key k [] [] :=
  ⟨⟨.nil, .nil, Nat.zero_le _⟩, nofun, nofun⟩

omit [DecidableEq ι] in
theorem Summary.congr {history history' : List α} (h : Summary ident key k history l)
    (heq : ∀ a, a ∈ history ↔ a ∈ history') : Summary ident key k history' l :=
  ⟨h.normal, fun b hb => ⟨(heq b).1 (h.newest b hb).1, fun c hc => (h.newest b hb).2 c ((heq c).2 hc)⟩,
    fun c hc => h.covered c ((heq c).2 hc)⟩

omit [DecidableEq ι] in
/-- If `k` items newer than `x` are covered by a list, then `k` of its items are newer than `x`. -/
theorem all_newer (hl : (l.map ident).Nodup)
    (hnewer : k ≤ (newer key l x).length) (hcov : ∀ b ∈ l, x < key b → Covered ident key k m b) :
    k ≤ (newer key m x).length := by
  have hle : ∀ y, x < y → k ≤ (newer key m y).length → k ≤ (newer key m x).length := fun y hy h =>
    h.trans (List.monotone_filter_right m fun b hb => by
      simpa using hy.trans (of_decide_eq_true hb)).length_le
  by_cases hfull : ∃ b ∈ l, x < key b ∧ k ≤ (newer key m (key b)).length
  · obtain ⟨b, -, hx, hb⟩ := hfull
    exact hle _ hx hb
  · push Not at hfull
    -- each of the `k` items has one of its identity in the list, no older than itself
    have hsub : ((newer key l x).map ident).Subperm ((newer key m x).map ident) := by
      refine List.Nodup.subperm (hl.sublist (List.filter_sublist.map _)) fun i hi => ?_
      obtain ⟨b, hb, rfl⟩ := List.mem_map.1 hi
      obtain ⟨hbl, hx⟩ := mem_newer.1 hb
      obtain ⟨c, hc, hid, hle'⟩ := (hcov b hbl hx).resolve_right (not_le.2 (hfull b hbl hx))
      exact List.mem_map.2 ⟨c, mem_newer.2 ⟨hc, hx.trans_le hle'⟩, hid⟩
    have := hsub.length_le
    simp only [List.length_map] at this
    exact hnewer.trans this

omit [DecidableEq ι] in
theorem Normal.forall_newer (hm : Normal ident key k m) (h : k ≤ (newer key m x).length) :
    ∀ b ∈ m, x < key b := by
  have := newer_take (hm.sorted.imp le_of_lt) h
  rw [List.take_of_length_le hm.length_le] at this
  exact this.2

omit [DecidableEq ι] in
/-- What covers the items of a list covers what they cover. -/
theorem Covered.trans (hl : (l.map ident).Nodup)
    (h : Covered ident key k l c) (hcov : ∀ b ∈ l, Covered ident key k m b) :
    Covered ident key k m c := by
  rcases h with ⟨b, hb, hid, hle⟩ | h
  · rcases hcov b hb with ⟨d, hd, hid', hle'⟩ | hfull
    · exact .inl ⟨d, hd, hid'.trans hid, hle.trans hle'⟩
    · refine .inr (hfull.trans (List.monotone_filter_right m fun d hd => ?_).length_le)
      simpa using hle.trans_lt (of_decide_eq_true hd)
  · exact .inr (all_newer hl h fun b hb _ => hcov b hb)

section Key

variable (hkey : ∀ a b : α, key a = key b → ident a = ident b) {history other : List α}

include hkey

/-- Showing an item adds it to the history. -/
theorem Summary.observe (h : Summary ident key k history l) (a : α) :
    Summary ident key k (history ++ [a]) (observe ident key k l a).1 := by
  have hnormal := normal_observe (k := k) (a := a) hkey h.normal.idents
  have hcov : ∀ c ∈ history ++ [a], Covered ident key k (Newest.observe ident key k l a).1 c := by
    intro c hc
    rcases List.mem_append.1 hc with hc | hc
    · exact (h.covered c hc).observe hkey a
    · rw [List.mem_singleton.1 hc]
      exact covered_observe_self hkey a l
  refine ⟨hnormal, fun b hb => ⟨?_, fun c hc hid => ?_⟩, hcov⟩
  · rcases mem_observe hb with rfl | hb
    · simp
    · exact List.mem_append_left _ (h.newest b hb).1
  · -- an item of the same identity in the list is this one, and no older
    rcases hcov c hc with ⟨d, hd, hdc, hle⟩ | hfull
    · rwa [List.inj_on_of_nodup_map hnormal.idents hd hb (hdc.trans hid)] at hle
    · exact (hnormal.forall_newer hfull b hb).le

theorem Summary.observeAll (h : Summary ident key k history l) (as : List α) :
    Summary ident key k (history ++ as) (observeAll ident key k l as) := by
  induction as generalizing l history with
  | nil => rwa [List.append_nil]
  | cons a as ih =>
    rw [List.append_cons]
    exact ih (h.observe hkey a)

/-- Showing the items of another history's list, in any order, adds that whole history. -/
theorem Summary.append (h : Summary ident key k history l) (hr : Summary ident key k other r)
    {as : List α} (has : ∀ b, b ∈ as ↔ b ∈ r) :
    Summary ident key k (history ++ other) (Newest.observeAll ident key k l as) := by
  have hm := h.observeAll hkey as
  have hcov : ∀ c ∈ history ++ other, Covered ident key k (Newest.observeAll ident key k l as) c := by
    intro c hc
    rcases List.mem_append.1 hc with hc | hc
    · exact hm.covered c (List.mem_append_left _ hc)
    · exact (hr.covered c hc).trans hr.normal.idents fun b hb =>
        hm.covered b (List.mem_append_right _ ((has b).2 hb))
  refine ⟨hm.normal, fun b hb => ⟨?_, fun c hc hid => ?_⟩, hcov⟩
  · exact List.mem_append.2 ((List.mem_append.1 (hm.newest b hb).1).imp_right fun h =>
      (hr.newest b ((has b).1 h)).1)
  · rcases hcov c hc with ⟨d, hd, hdc, hle⟩ | hfull
    · rwa [List.inj_on_of_nodup_map hm.normal.idents hd hb (hdc.trans hid)] at hle
    · exact (hm.normal.forall_newer hfull b hb).le

end Key

omit [DecidableEq ι] in
/-- Two lists of one history are equal if its items are known by their keys. -/
theorem Summary.unique {history : List α} (hinj : ∀ a ∈ history, ∀ b ∈ history, key a = key b → a = b)
    (hl : Summary ident key k history l) (hm : Summary ident key k history m) : l = m := by
  have hsub : ∀ {l m : List α}, Summary ident key k history l → Summary ident key k history m →
      ∀ b ∈ l, b ∈ m := by
    intro l m hl hm b hb
    obtain ⟨hbh, hnewest⟩ := hl.newest b hb
    rcases hm.covered b hbh with ⟨c, hc, hid, hle⟩ | hfull
    · have hch := (hm.newest c hc).1
      rwa [hinj b hbh c hch (le_antisymm hle (hnewest c hch hid))]
    · -- all of the other list is newer, so all of this one would be
      have := all_newer hm.normal.idents hfull fun c hc _ =>
        hl.covered c (hm.newest c hc).1
      exact absurd (hl.normal.forall_newer this b hb) (lt_irrefl _)
  refine eq_of_strictly_sorted (f := fun b => OrderDual.toDual (key b)) ?_ ?_ fun b =>
    ⟨hsub hl hm b, hsub hm hl b⟩
  · exact hl.normal.sorted
  · exact hm.normal.sorted

/-- The newest item of each identity, newest first, cut to `k`. -/
def newestOf [DecidableEq α] (ident : α → ι) (key : α → κ) (k : Nat) (history : List α) : List α :=
  (sortBy (fun b => OrderDual.toDual (key b)) (history.filter fun a =>
    ∀ b ∈ history, ident b = ident a → key b ≤ key a).dedup).take k

theorem summary_newestOf [DecidableEq α] {history : List α}
    (hkey : ∀ a b : α, key a = key b → ident a = ident b)
    (hinj : ∀ a ∈ history, ∀ b ∈ history, key a = key b → a = b) :
    Summary ident key k history (newestOf ident key k history) := by
  let newest := (history.filter fun a => ∀ b ∈ history, ident b = ident a → key b ≤ key a).dedup
  have hmem : ∀ a, a ∈ newest ↔ a ∈ history ∧ ∀ b ∈ history, ident b = ident a → key b ≤ key a :=
    fun a => by simp [newest]
  have hidents : (newest.map ident).Nodup := by
    refine List.Nodup.map_on (fun a ha b hb hab => ?_) (List.nodup_dedup _)
    obtain ⟨hah, ha⟩ := (hmem a).1 ha
    obtain ⟨hbh, hb⟩ := (hmem b).1 hb
    exact hinj a hah b hbh (le_antisymm (hb a hah hab) (ha b hbh hab.symm))
  refine ⟨⟨?_, ?_, List.length_take_le _ _⟩, fun b hb => ?_, fun c hc => ?_⟩
  · exact (sorted_sortBy hkey hidents).sublist (List.take_sublist _ _)
  · refine List.Nodup.sublist ((List.take_sublist _ _).map _) ?_
    exact ((sortBy_perm _ _).map ident).nodup_iff.2 hidents
  · exact (hmem b).1 (mem_sortBy.1 (List.mem_of_mem_take hb))
  · refine Covered.take_sortBy hkey (.inl ?_)
    -- of the items of this identity, one is the newest
    have hne : (history.toFinset.filter fun b => ident b = ident c).Nonempty :=
      ⟨c, Finset.mem_filter.2 ⟨List.mem_toFinset.2 hc, rfl⟩⟩
    obtain ⟨b, hb, hmax⟩ := Finset.exists_max_image _ key hne
    simp only [Finset.mem_filter, List.mem_toFinset] at hb hmax
    have hb' : b ∈ newest := (hmem b).2 ⟨hb.1, fun d hd hid => hmax d ⟨hd, hid.trans hb.2⟩⟩
    exact ⟨b, hb', hb.2, hmax c ⟨hc, rfl⟩⟩

theorem Summary.eq_newestOf [DecidableEq α] {history : List α}
    (hkey : ∀ a b : α, key a = key b → ident a = ident b)
    (hinj : ∀ a ∈ history, ∀ b ∈ history, key a = key b → a = b)
    (h : Summary ident key k history l) : l = newestOf ident key k history :=
  h.unique hinj (summary_newestOf hkey hinj)

end Luchta.Framework.Newest
