import Luchta.Framework.Sorted

/-!
# Sorting with ties

A stable sort leaves elements with one key in the order in which it found them: what is read off a
sorted list is the same for every order of the list exactly when no ties meet in it.

* `find?_sortBy_eq`, `filterMap_sortBy_eq`: without ties, the order of the list does not matter.
* `find?_sortBy_unique`, `filterMap_sortBy_unique`: what is the same for a list and for its reverse
  has no ties.
-/

namespace Luchta.Framework

variable {α β κ : Type*}

/-! ## Pairs in order -/

theorem pair_sublist_or [DecidableEq α] {l : List α} {a b : α} (ha : a ∈ l) (hb : b ∈ l)
    (hne : a ≠ b) : [a, b].Sublist l ∨ [b, a].Sublist l := by
  induction l with
  | nil => cases ha
  | cons c l ih =>
    by_cases hac : a = c
    · subst hac
      have hbl := (List.mem_cons.1 hb).resolve_left hne.symm
      exact .inl ((List.singleton_sublist.2 hbl).cons_cons a)
    · have hal := (List.mem_cons.1 ha).resolve_left hac
      by_cases hbc : b = c
      · subst hbc
        exact .inr ((List.singleton_sublist.2 hal).cons_cons b)
      · have hbl := (List.mem_cons.1 hb).resolve_left hbc
        exact (ih hal hbl).imp (·.cons c) (·.cons c)

/-- Without duplicates, two elements come in one order only. -/
theorem not_both_sublist {l : List α} (hl : l.Nodup) {a b : α} (hab : [a, b].Sublist l)
    (hba : [b, a].Sublist l) : False := by
  induction l with
  | nil => cases hab
  | cons c l ih =>
    obtain ⟨hc, hl⟩ := List.nodup_cons.1 hl
    cases hab with
    | cons _ hab =>
      cases hba with
      | cons _ hba => exact ih hl hab hba
      | cons_cons _ hba => exact hc (hab.subset (by simp))
    | cons_cons _ hab =>
      cases hba with
      | cons _ hba => exact hc (hba.subset (by simp))
      | cons_cons _ hba => exact hc (hab.subset (by simp))

theorem not_pair_sublist_of_find? {l : List α} (hl : l.Nodup) {p : α → Bool} {a b : α}
    (hfind : l.find? p = some a) (hb : p b) (hne : b ≠ a) : ¬ [b, a].Sublist l := by
  induction l with
  | nil => cases hfind
  | cons c l ih =>
    obtain ⟨hc, hl⟩ := List.nodup_cons.1 hl
    intro hsub
    cases hpc : p c with
    | true =>
      rw [List.find?_cons_of_pos hpc] at hfind
      obtain rfl := Option.some.inj hfind
      cases hsub with
      | cons _ hsub => exact hc (hsub.subset (by simp))
      | cons_cons _ hsub => exact hne rfl
    | false =>
      rw [List.find?_cons_of_neg (by simp [hpc])] at hfind
      cases hsub with
      | cons _ hsub => exact ih hl hfind hsub
      | cons_cons _ hsub => simp [hpc] at hb

/-! ## What sorting decides -/

variable [LinearOrder κ] {f : α → κ} {l m : List α}

theorem find?_sortBy_least {p : α → Bool} {a : α} (h : (sortBy f l).find? p = some a) :
    a ∈ l ∧ p a ∧ ∀ b ∈ l, p b → f a ≤ f b := by
  obtain ⟨hp, front, back, heq, hfront⟩ := List.find?_eq_some_iff_append.1 h
  have hsorted := pairwise_le_sortBy f l
  rw [heq] at hsorted
  refine ⟨mem_sortBy.1 (List.mem_of_find?_eq_some h), hp, fun b hb hpb => ?_⟩
  rw [← mem_sortBy (f := f), heq, List.mem_append, List.mem_cons] at hb
  rcases hb with hb | rfl | hb
  · exact absurd hpb (by simpa using hfront b hb)
  · exact le_rfl
  · exact (List.pairwise_cons.1 (List.pairwise_append.1 hsorted).2.1).1 b hb

/-- The first of several elements does not depend on the order, where it alone has the least key. -/
theorem find?_sortBy_eq (hperm : l.Perm m) {p : α → Bool}
    (huniq : ∀ a ∈ l, ∀ b ∈ l, p a → p b → (∀ c ∈ l, p c → f a ≤ f c) →
      (∀ c ∈ l, p c → f b ≤ f c) → a = b) :
    (sortBy f l).find? p = (sortBy f m).find? p := by
  have hmem : ∀ {a}, a ∈ m ↔ a ∈ l := hperm.mem_iff.symm
  cases hl : (sortBy f l).find? p with
  | none =>
    refine (List.find?_eq_none.2 fun a ha => ?_).symm
    exact List.find?_eq_none.1 hl a (mem_sortBy.2 (hmem.1 (mem_sortBy.1 ha)))
  | some a =>
    obtain ⟨ha, hpa, hmin⟩ := find?_sortBy_least hl
    cases hm : (sortBy f m).find? p with
    | none => exact absurd hpa (by simpa using List.find?_eq_none.1 hm a (mem_sortBy.2 (hmem.2 ha)))
    | some b =>
      obtain ⟨hb, hpb, hmin'⟩ := find?_sortBy_least hm
      rw [huniq a ha b (hmem.1 hb) hpa hpb hmin fun c hc => hmin' c (hmem.2 hc)]

/-- The selected elements, in order, do not depend on the order, where their keys are distinct. -/
theorem filterMap_sortBy_eq (hperm : l.Perm m) (hl : l.Nodup) {g : α → Option β}
    (huniq : ∀ a ∈ l, ∀ b ∈ l, (g a).isSome → (g b).isSome → f a = f b → a = b) :
    (sortBy f l).filterMap g = (sortBy f m).filterMap g := by
  have hselect : ∀ k : List α, (k.filter fun a => (g a).isSome).filterMap g = k.filterMap g := by
    intro k
    rw [List.filterMap_filter]
    refine List.filterMap_congr fun a _ => ?_
    cases hg : g a <;> simp
  have hstrict : ∀ {k : List α}, l.Perm k →
      ((sortBy f k).filter fun a => (g a).isSome).Pairwise fun a b => f a < f b := by
    intro k hk
    have hnd : (sortBy f k).Nodup := (sortBy_perm f k).nodup_iff.2 (hk.nodup_iff.1 hl)
    have hle := ((pairwise_le_sortBy f k).and hnd).filter fun a => (g a).isSome
    refine hle.imp_of_mem fun {a b} ha hb hab => lt_of_le_of_ne hab.1 fun heq => hab.2 ?_
    rw [List.mem_filter, mem_sortBy] at ha hb
    exact huniq a (hk.mem_iff.2 ha.1) b (hk.mem_iff.2 hb.1) ha.2 hb.2 heq
  rw [← hselect (sortBy f l), ← hselect (sortBy f m), eq_of_strictly_sorted (hstrict (.refl l))
    (hstrict hperm) fun a => ?_]
  simp [hperm.mem_iff]

/-! ## What sorting leaves open -/

/-- Two elements with one key come one way round when sorting a list or when sorting its reverse. -/
theorem pair_sublist_sortBy [DecidableEq α] {a b : α} (ha : a ∈ l) (hb : b ∈ l) (hne : a ≠ b)
    (hkey : f a = f b) : [a, b].Sublist (sortBy f l) ∨ [a, b].Sublist (sortBy f l.reverse) := by
  rcases pair_sublist_or ha hb hne with h | h
  · exact .inl (List.pair_sublist_insertionSort hkey.le h)
  · exact .inr (List.pair_sublist_insertionSort hkey.le (by simpa using h.reverse))

theorem find?_sortBy_unique [DecidableEq α] (hl : l.Nodup) {p : α → Bool}
    (heq : (sortBy f l).find? p = (sortBy f l.reverse).find? p) {a b : α} (ha : a ∈ l) (hb : b ∈ l)
    (hpa : p a) (hpb : p b) (hmina : ∀ c ∈ l, p c → f a ≤ f c) (hminb : ∀ c ∈ l, p c → f b ≤ f c) :
    a = b := by
  have hnd := (sortBy_perm f l).nodup_iff.2 hl
  have hnd' := (sortBy_perm f l.reverse).nodup_iff.2 (List.nodup_reverse.2 hl)
  obtain ⟨z, hz⟩ : ∃ z, (sortBy f l).find? p = some z :=
    Option.isSome_iff_exists.1 (List.find?_isSome.2 ⟨a, mem_sortBy.2 ha, hpa⟩)
  obtain ⟨hzl, hpz, hminz⟩ := find?_sortBy_least hz
  have hfirst : ∀ {c}, c ∈ l → p c → (∀ d ∈ l, p d → f c ≤ f d) → c = z := by
    intro c hc hpc hminc
    by_contra hne
    have hkey : f c = f z := le_antisymm (hminc z hzl hpz) (hminz c hc hpc)
    rcases pair_sublist_sortBy hc hzl hne hkey with h | h
    · exact not_pair_sublist_of_find? hnd hz hpc hne h
    · exact not_pair_sublist_of_find? hnd' (heq ▸ hz) hpc hne h
  rw [hfirst ha hpa hmina, hfirst hb hpb hminb]

theorem filterMap_sortBy_unique [DecidableEq α] (hl : l.Nodup) {g : α → Option β}
    (hg : ∀ a b c, g a = some c → g b = some c → a = b)
    (heq : (sortBy f l).filterMap g = (sortBy f l.reverse).filterMap g) {a b : α} (ha : a ∈ l)
    (hb : b ∈ l) (hga : (g a).isSome) (hgb : (g b).isSome) (hkey : f a = f b) : a = b := by
  by_contra hne
  obtain ⟨x, hx⟩ := Option.isSome_iff_exists.1 hga
  obtain ⟨y, hy⟩ := Option.isSome_iff_exists.1 hgb
  have hnd : ((sortBy f l).filterMap g).Nodup :=
    ((sortBy_perm f l).nodup_iff.2 hl).filterMap fun a b c ha hb => hg a b c ha hb
  have hin : ∀ {c d : α} {u v : β}, c ∈ l → d ∈ l → c ≠ d → f c = f d → g c = some u → g d = some v →
      [u, v].Sublist ((sortBy f l).filterMap g) := by
    intro c d u v hc hd hcd hk hu hv
    have hmap : [u, v] = [c, d].filterMap g := by
      simp [hu, hv]
    rw [hmap]
    rcases pair_sublist_sortBy hc hd hcd hk with h | h
    · exact h.filterMap g
    · exact heq ▸ h.filterMap g
  exact not_both_sublist hnd (hin ha hb hne hkey hx hy) (hin hb ha (Ne.symm hne) hkey.symm hy hx)

end Luchta.Framework
