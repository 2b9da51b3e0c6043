import Mathlib.Data.List.Sort

/-!
# Canonical lists

Sorting makes a list canonical: what is left after it depends only on the elements.

* `eq_of_strictly_sorted`: lists strictly sorted by a key with the same elements are equal.
* `pairwise_insertionSort_key`: a comparison that refines a key sorts by it.
* `pairwise_lt_sortBy`: sorting elements with distinct keys sorts them strictly.
* `mem_dedup`, `pairwise_dedup`: removing adjacent duplicates of a sorted list removes all of them.
-/

namespace Luchta.Framework

variable {α κ : Type*}

theorem eq_of_strictly_sorted [LinearOrder κ] {f : α → κ} {l m : List α} (hl : l.Pairwise fun a b => f a < f b)
    (hm : m.Pairwise fun a b => f a < f b) (h : ∀ a, a ∈ l ↔ a ∈ m) : l = m := by
  have hnd : ∀ {l : List α}, (l.Pairwise fun a b => f a < f b) → l.Nodup := fun h =>
    h.imp fun hab heq => (heq ▸ hab).false
  have hperm := (List.perm_ext_iff_of_nodup (hnd hl) (hnd hm)).2 h
  exact hperm.eq_of_pairwise (fun a b _ _ hab hba => absurd (hab.trans hba) (lt_irrefl _)) hl hm

/-- Sorting by a comparison that, on the elements of the list, refines a key sorts by the key. -/
theorem pairwise_insertionSort_key [LinearOrder κ] {r : α → α → Prop} [DecidableRel r] {f : α → κ}
    {l : List α} (hle : ∀ a ∈ l, ∀ b ∈ l, r a b → f a ≤ f b)
    (hge : ∀ a ∈ l, ∀ b ∈ l, ¬ r a b → f b ≤ f a) :
    (l.insertionSort r).Pairwise fun a b => f a ≤ f b := by
  have hinsert : ∀ a ∈ l, ∀ m : List α, (∀ b ∈ m, b ∈ l) → (m.Pairwise fun a b => f a ≤ f b) →
      (m.orderedInsert r a).Pairwise fun a b => f a ≤ f b := by
    intro a ha m hm hsorted
    induction m with
    | nil => exact List.pairwise_singleton _ a
    | cons b m ih =>
      obtain ⟨hb, hrest⟩ := List.pairwise_cons.1 hsorted
      have hbl := hm b List.mem_cons_self
      rw [List.orderedInsert_cons]
      split
      · rename_i hab
        refine List.pairwise_cons.2 ⟨fun c hc => ?_, hsorted⟩
        rcases List.mem_cons.1 hc with rfl | hc
        · exact hle a ha c hbl hab
        · exact (hle a ha b hbl hab).trans (hb c hc)
      · rename_i hab
        refine List.pairwise_cons.2 ⟨fun c hc => ?_, ih (fun c hc => hm c (List.mem_cons_of_mem _ hc)) hrest⟩
        rcases (List.mem_orderedInsert r).1 hc with rfl | hc
        · exact hge c ha b hbl hab
        · exact hb c hc
  suffices h : ∀ m : List α, (∀ b ∈ m, b ∈ l) → (m.insertionSort r).Pairwise fun a b => f a ≤ f b from
    h l fun _ hb => hb
  intro m hm
  induction m with
  | nil => exact .nil
  | cons a m ih =>
    have hm' := fun b hb => hm b (List.mem_cons_of_mem a hb)
    exact hinsert a (hm a List.mem_cons_self) _ (fun b hb => hm' b ((List.mem_insertionSort r).1 hb)) (ih hm')

/-- The stable sort by a key, as a structural recursion. -/
def sortBy [LinearOrder κ] (f : α → κ) (l : List α) : List α := l.insertionSort fun a b => f a ≤ f b

theorem sortBy_perm [LinearOrder κ] (f : α → κ) (l : List α) : (sortBy f l).Perm l :=
  List.perm_insertionSort _ _

@[simp] theorem mem_sortBy [LinearOrder κ] {f : α → κ} {l : List α} {a : α} :
    a ∈ sortBy f l ↔ a ∈ l := (sortBy_perm f l).mem_iff

@[simp] theorem length_sortBy [LinearOrder κ] (f : α → κ) (l : List α) :
    (sortBy f l).length = l.length := (sortBy_perm f l).length_eq

theorem pairwise_le_sortBy [LinearOrder κ] (f : α → κ) (l : List α) :
    (sortBy f l).Pairwise fun a b => f a ≤ f b :=
  pairwise_insertionSort_key (fun _ _ _ _ => id) fun _ _ _ _ => le_of_not_ge

/-- Elements that do not share a key are sorted strictly. -/
theorem pairwise_lt_sortBy [LinearOrder κ] {f : α → κ} {l : List α} (hl : (l.map f).Nodup) :
    (sortBy f l).Pairwise fun a b => f a < f b := by
  have hne : (sortBy f l).Pairwise fun a b => f a ≠ f b :=
    List.pairwise_map.1 (((sortBy_perm f l).map f).nodup_iff.2 hl)
  exact ((pairwise_le_sortBy f l).and hne).imp fun h => lt_of_le_of_ne h.1 h.2

/-- `Vec::dedup`: drop an element equal to the one before it. -/
def dedup [DecidableEq α] : List α → List α
  | [] => []
  | [a] => [a]
  | a :: b :: l => if a = b then dedup (b :: l) else a :: dedup (b :: l)

theorem mem_dedup [DecidableEq α] {l : List α} {a : α} : a ∈ dedup l ↔ a ∈ l := by
  induction l using dedup.induct with
  | case1 => rfl
  | case2 => rfl
  | case3 b l ih => simp [dedup, ih]
  | case4 b c l hne ih => simp [dedup, hne, ih]

theorem pairwise_dedup [DecidableEq α] [LinearOrder κ] {f : α → κ} (hf : Function.Injective f) {l : List α}
    (h : l.Pairwise fun a b => f a ≤ f b) : (dedup l).Pairwise fun a b => f a < f b := by
  induction l using dedup.induct with
  | case1 => exact .nil
  | case2 a => exact List.pairwise_singleton _ _
  | case3 b l ih => simpa [dedup] using ih (List.pairwise_cons.1 h).2
  | case4 b c l hne ih =>
    obtain ⟨hb, hl⟩ := List.pairwise_cons.1 h
    rw [dedup, if_neg hne]
    refine List.pairwise_cons.2 ⟨fun a ha => ?_, ih hl⟩
    have hbc : f b < f c := lt_of_le_of_ne (hb c List.mem_cons_self) (hf.ne hne)
    rcases List.mem_cons.1 (mem_dedup.1 ha) with rfl | ha
    · exact hbc
    · exact hbc.trans_le ((List.pairwise_cons.1 hl).1 a ha)

end Luchta.Framework
