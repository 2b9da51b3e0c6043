import Luchta.Framework.Sorted
import Mathlib.Data.Finset.Card
import Mathlib.Order.OrderDual

/-!
# Bounded newest-first lists

A list that keeps the newest `k` of the items it is shown, one for each identity. `level` counts, up
to `k`, the identities with an item at least as new as a given key; showing an item raises it
(`level_observe`), strictly if the item makes a difference (`observe_cases`).
-/

namespace Luchta.Framework.Newest

variable {α ι κ : Type*} [DecidableEq ι] [LinearOrder κ] (ident : α → ι) (key : α → κ) (k : Nat)

/-- Replace the item of the same identity by a newer one, or else add the item; and whether that
changed the list. -/
def upsert (a : α) : List α → List α × Bool
  | [] => ([a], true)
  | b :: l =>
    if ident b = ident a then
      if key b < key a then (a :: l, true) else (b :: l, false)
    else (b :: (upsert a l).1, (upsert a l).2)

/-- Then keep the newest `k`, and whether that dropped something. -/
def observe (l : List α) (a : α) : List α × Bool :=
  let u := upsert ident key a l
  let sorted := sortBy (fun b => OrderDual.toDual (key b)) u.1
  (sorted.take k, u.2 || decide (k < sorted.length))

/-- The identities with an item that is at least as new as `x`. -/
def reaching (l : List α) (x : κ) : Finset ι := ((l.filter fun b => x ≤ key b).map ident).toFinset

def level (l : List α) (x : κ) : Nat := min k (reaching ident key l x).card

/-- Newest first, one item for each identity, and no more than `k`. -/
structure Normal (l : List α) : Prop where
  sorted : l.Pairwise fun a b => key b < key a
  idents : (l.map ident).Nodup
  length_le : l.length ≤ k

variable {ident key k} {l r : List α} {a : α} {x : κ}

theorem mem_reaching {i : ι} : i ∈ reaching ident key l x ↔ ∃ b ∈ l, x ≤ key b ∧ ident b = i := by
  simp [reaching, and_assoc]

theorem reaching_congr (h : ∀ b, b ∈ l ↔ b ∈ r) : reaching ident key l x = reaching ident key r x := by
  ext i
  simp only [mem_reaching, h]

theorem reaching_mono (h : ∀ b ∈ l, b ∈ r) : reaching ident key l x ⊆ reaching ident key r x := by
  intro i hi
  obtain ⟨b, hb, hx⟩ := mem_reaching.1 hi
  exact mem_reaching.2 ⟨b, h b hb, hx⟩

theorem card_reaching_le : (reaching ident key l x).card ≤ l.length := by
  refine (List.toFinset_card_le _).trans ?_
  rw [List.length_map]
  exact List.length_filter_le _ _

/-- Adding an item reaches what the item reaches, whichever way it is added. -/
theorem reaching_upsert (a : α) (l r : List α) :
    reaching ident key ((upsert ident key a l).1 ++ r) x = reaching ident key (l ++ a :: r) x := by
  induction l with
  | nil => rfl
  | cons b l ih =>
    unfold upsert
    ext i
    split
    · rename_i hid
      split
      · -- the older item reached nothing more
        rename_i hlt
        simp only [mem_reaching, List.cons_append, List.mem_cons, List.mem_append, exists_eq_or_imp]
        have : x ≤ key b ∧ ident b = i → x ≤ key a ∧ ident a = i := fun h =>
          ⟨h.1.trans hlt.le, hid ▸ h.2⟩
        grind
      · rename_i hlt
        simp only [mem_reaching, List.cons_append, List.mem_cons, List.mem_append, exists_eq_or_imp]
        have : x ≤ key a ∧ ident a = i → x ≤ key b ∧ ident b = i := fun h =>
          ⟨h.1.trans (not_lt.1 hlt), hid.trans h.2⟩
        grind
    · have := Finset.ext_iff.1 ih i
      simp only [mem_reaching, List.cons_append, List.mem_cons, exists_eq_or_imp] at this ⊢
      rw [this]

theorem map_upsert (a : α) (l : List α) : (upsert ident key a l).1.map ident = l.map ident ∨
    ident a ∉ l.map ident ∧ (upsert ident key a l).1.map ident = l.map ident ++ [ident a] := by
  induction l with
  | nil => exact .inr ⟨by simp, rfl⟩
  | cons b l ih =>
    unfold upsert
    split
    · rename_i hid
      split
      · simp [hid]
      · simp
    · rename_i hid
      rcases ih with ih | ⟨hnot, ih⟩
      · simp [ih]
      · refine .inr ⟨?_, by simp [ih]⟩
        rw [List.map_cons, List.mem_cons, not_or]
        exact ⟨Ne.symm hid, hnot⟩

theorem nodup_upsert (a : α) (h : (l.map ident).Nodup) : ((upsert ident key a l).1.map ident).Nodup := by
  rcases @map_upsert _ _ _ _ _ ident key a l with heq | ⟨hnot, heq⟩
  · rwa [heq]
  · rw [heq]
    exact List.nodup_append'.2 ⟨h, List.nodup_singleton _, List.disjoint_singleton.2 hnot⟩

/-- An item that is not newer than the one of its identity changes nothing. -/
theorem upsert_stale (hl : (l.map ident).Nodup) {b : α} (hb : b ∈ l) (hid : ident b = ident a)
    (hle : key a ≤ key b) : upsert ident key a l = (l, false) := by
  induction l with
  | nil => contradiction
  | cons c l ih =>
    obtain ⟨hnot, hl⟩ := List.nodup_cons.1 hl
    rcases List.mem_cons.1 hb with rfl | hb
    · rw [upsert, if_pos hid, if_neg (not_lt.2 hle)]
    · have hne : ident c ≠ ident a := fun h => hnot (h ▸ hid ▸ List.mem_map_of_mem hb)
      rw [upsert, if_neg hne, ih hl hb]

theorem upsert_fresh (h : ident a ∉ l.map ident) : upsert ident key a l = (l ++ [a], true) := by
  induction l with
  | nil => rfl
  | cons b l ih =>
    rw [List.map_cons, List.mem_cons, not_or] at h
    rw [upsert, if_neg (Ne.symm h.1), ih h.2]
    rfl

theorem mem_upsert {b : α} (h : b ∈ (upsert ident key a l).1) : b = a ∨ b ∈ l := by
  induction l with
  | nil => exact .inl (List.mem_singleton.1 h)
  | cons c l ih =>
    unfold upsert at h
    split at h
    · split at h
      · exact (List.mem_cons.1 h).imp_right (.tail _)
      · exact .inr h
    · rcases List.mem_cons.1 h with rfl | h
      · exact .inr (.head _)
      · exact (ih h).imp_right (.tail _)

theorem mem_observe {b : α} (h : b ∈ (observe ident key k l a).1) : b = a ∨ b ∈ l :=
  mem_upsert (mem_sortBy.1 (List.mem_of_mem_take h))

/-- A list that is newest first already is its own sorting. -/
theorem sortBy_of_sorted (h : l.Pairwise fun a b => key b < key a) :
    sortBy (fun b => OrderDual.toDual (key b)) l = l := by
  refine eq_of_strictly_sorted (f := fun b => OrderDual.toDual (key b)) (pairwise_lt_sortBy ?_) h
    fun b => mem_sortBy
  refine List.pairwise_map.2 (h.imp fun hlt heq => ?_)
  exact hlt.ne' (OrderDual.toDual.injective heq)

section Observe

variable (hkey : ∀ a b : α, key a = key b → ident a = ident b)

include hkey

omit [DecidableEq ι] in
theorem sorted_sortBy (h : (l.map ident).Nodup) :
    (sortBy (fun b => OrderDual.toDual (key b)) l).Pairwise fun a b => key b < key a := by
  refine pairwise_lt_sortBy (f := fun b => OrderDual.toDual (key b)) ?_
  refine List.Nodup.map_on (fun b hb c hc heq => ?_) (.of_map _ h)
  exact List.inj_on_of_nodup_map h hb hc (hkey b c (OrderDual.toDual.injective heq))

theorem normal_observe (h : (l.map ident).Nodup) : Normal ident key k (observe ident key k l a).1 := by
  have hnd : ((upsert ident key a l).1.map ident).Nodup := nodup_upsert a h
  refine ⟨(sorted_sortBy hkey hnd).sublist (List.take_sublist _ _), ?_, List.length_take_le _ _⟩
  refine List.Nodup.sublist ((List.take_sublist _ _).map _) ?_
  exact ((sortBy_perm _ _).map ident).nodup_iff.2 hnd

/-- Showing an item, before any others, raises what all of them reach. -/
theorem level_observe (h : (l.map ident).Nodup) (r : List α) (x : κ) :
    level ident key k (l ++ a :: r) x ≤ level ident key k ((observe ident key k l a).1 ++ r) x := by
  have hnd : ((upsert ident key a l).1.map ident).Nodup := nodup_upsert a h
  have hsorted := sorted_sortBy hkey hnd
  have hmem : ∀ b, b ∈ sortBy (fun b => OrderDual.toDual (key b)) (upsert ident key a l).1 ↔
      b ∈ (upsert ident key a l).1 := fun b => mem_sortBy
  have hlist : ((sortBy (fun b => OrderDual.toDual (key b)) (upsert ident key a l).1).map
      ident).Nodup := ((sortBy_perm _ _).map ident).nodup_iff.2 hnd
  unfold level
  rw [← reaching_upsert]
  show _ ≤ min k (reaching ident key (List.take k (sortBy _ _) ++ r) x).card
  generalize sortBy (fun b => OrderDual.toDual (key b)) (upsert ident key a l).1 = m at *
  by_cases hdrop : ∃ d ∈ m.drop k, x ≤ key d
  · -- the items kept are newer than one that was dropped, and there are `k` of them
    obtain ⟨d, hd, hx⟩ := hdrop
    have hall : ∀ b ∈ m.take k, x ≤ key b := fun b hb => by
      rw [← List.take_append_drop k m, List.pairwise_append] at hsorted
      exact hx.trans (hsorted.2.2 b hb d hd).le
    have hcard : (reaching ident key (m.take k) x).card = (m.take k).length := by
      rw [reaching, List.filter_eq_self.2 (fun b hb => decide_eq_true (hall b hb)),
        List.toFinset_card_of_nodup, List.length_map]
      exact hlist.sublist ((List.take_sublist _ _).map _)
    have hlen : (m.take k).length = k := by
      have := List.length_pos_of_mem hd
      rw [List.length_drop] at this
      rw [List.length_take]
      omega
    have hsub : (reaching ident key (m.take k) x).card ≤ (reaching ident key (m.take k ++ r) x).card :=
      Finset.card_le_card (reaching_mono fun b hb => List.mem_append_left r hb)
    omega
  · -- nothing that reaches `x` was dropped
    push Not at hdrop
    refine min_le_min_left k (Finset.card_le_card fun i hi => ?_)
    obtain ⟨b, hb, hx, rfl⟩ := mem_reaching.1 hi
    refine mem_reaching.2 ⟨b, ?_, hx, rfl⟩
    rcases List.mem_append.1 hb with hb | hb
    · rw [← hmem, ← List.take_append_drop k m, List.mem_append] at hb
      refine List.mem_append_left _ (hb.resolve_right fun hb => ?_)
      exact absurd hx (not_le.2 (hdrop b hb))
    · exact List.mem_append_right _ hb

/-- What showing an item to a normal list does: it is not newer than what is known, it is older than
`k` others and dropped right away, or it makes a difference. -/
theorem observe_cases (h : Normal ident key k l) :
    ((∃ b ∈ l, ident b = ident a ∧ key a ≤ key b) ∧ observe ident key k l a = (l, false)) ∨
    (observe ident key k l a = (l, true) ∧ ident a ∉ l.map ident ∧ l.length = k ∧
      ∀ b ∈ l, key a < key b) ∨
    ∃ x, level ident key k l x < level ident key k (observe ident key k l a).1 x := by
  have htake : l.take k = l := List.take_of_length_le h.length_le
  by_cases hin : ident a ∈ reaching ident key l (key a)
  · left
    obtain ⟨b, hb, hle, hid⟩ := mem_reaching.1 hin
    refine ⟨⟨b, hb, hid, hle⟩, ?_⟩
    rw [observe, upsert_stale h.idents hb hid hle]
    simp [sortBy_of_sorted h.sorted, htake, h.length_le]
  · by_cases hfull : k ≤ (reaching ident key l (key a)).card
    · -- every item of a full list is newer
      refine .inr (.inl ?_)
      have hlen : l.length = k := le_antisymm h.length_le (hfull.trans card_reaching_le)
      have hall : ∀ b ∈ l, key a ≤ key b := by
        have hcard : ((l.filter fun b => key a ≤ key b).map ident).toFinset.card ≤
            (l.filter fun b => key a ≤ key b).length := by
          simpa using List.toFinset_card_le ((l.filter fun b => key a ≤ key b).map ident)
        have heq : (l.filter fun b => key a ≤ key b).length = l.length :=
          le_antisymm (List.length_filter_le _ _) (hlen.le.trans (hfull.trans hcard))
        intro b hb
        exact of_decide_eq_true (List.length_filter_eq_length_iff.1 heq b hb)
      have hnot : ident a ∉ l.map ident := fun hmem => by
        obtain ⟨b, hb, hid⟩ := List.mem_map.1 hmem
        exact hin (mem_reaching.2 ⟨b, hb, hall b hb, hid⟩)
      have hlt : ∀ b ∈ l, key a < key b := fun b hb => lt_of_le_of_ne (hall b hb) fun heq =>
        hnot (hkey a b heq ▸ List.mem_map_of_mem hb)
      have hsorted : (l ++ [a]).Pairwise fun a b => key b < key a :=
        List.pairwise_append.2 ⟨h.sorted, List.pairwise_singleton _ _, by simpa using hlt⟩
      refine ⟨?_, hnot, hlen, hlt⟩
      rw [observe, upsert_fresh hnot]
      simp [sortBy_of_sorted hsorted, ← hlen]
    · refine .inr (.inr ⟨key a, ?_⟩)
      have hraise := level_observe (k := k) (a := a) hkey h.idents [] (key a)
      rw [List.append_nil] at hraise
      refine lt_of_lt_of_le ?_ hraise
      have hinsert : insert (ident a) (reaching ident key l (key a)) ⊆
          reaching ident key (l ++ [a]) (key a) :=
        Finset.insert_subset (mem_reaching.2 ⟨a, by simp, le_refl _, rfl⟩)
          (reaching_mono fun b hb => List.mem_append_left _ hb)
      have hcard := Finset.card_le_card hinsert
      rw [Finset.card_insert_of_notMem hin] at hcard
      unfold level
      omega

end Observe

end Luchta.Framework.Newest
