import Luchta.Framework.HashMap

/-!
# Correlation tables

A table that finds, by its key, the party that waits under it. A party is registered under one key
once and for all; it is alive as long as the table has it.

* `Keyed`: the table has exactly the living parties under their keys.
* `Keyed.insert`, `Keyed.erase`, `Keyed.clear`: whom the operations leave alive.
-/

namespace Luchta.Framework

variable {κ ι : Type*} [DecidableEq κ]

/-- The table has exactly the living parties under their keys. -/
def Keyed (table : HashMap κ ι) (key : ι → Option κ) (alive : ι → Prop) : Prop :=
  ∀ k i, table.lookup k = some i ↔ key i = some k ∧ alive i

namespace Keyed

variable {table : HashMap κ ι} {key : ι → Option κ} {alive : ι → Prop}

theorem congr {key' : ι → Option κ} {alive' : ι → Prop} (h : Keyed table key alive)
    (hkey : ∀ i, key' i = key i) (halive : ∀ i, key i ≠ none → (alive' i ↔ alive i)) :
    Keyed table key' alive' := by
  intro k i
  rw [h k i, hkey i]
  refine and_congr_right fun hk => (halive i ?_).symm
  rw [hk]
  exact Option.some_ne_none k

/-- Whoever was registered under the key before is no longer found. -/
theorem insert [DecidableEq ι] (h : Keyed table key alive) {i : ι} (k : κ) (hkey : key i = none)
    {alive' : ι → Prop} (hi : alive' i)
    (halive : ∀ j, j ≠ i → (alive' j ↔ alive j ∧ table.lookup k ≠ some j)) :
    Keyed (table.insert k i) (Function.update key i (some k)) alive' := by
  intro k' j
  rw [HashMap.lookup_insert_if]
  by_cases hj : j = i
  · subst hj
    rw [Function.update_self]
    split
    · rename_i hk
      exact iff_of_true rfl ⟨congrArg some hk.symm, hi⟩
    · rename_i hk
      refine iff_of_false (fun hl => ?_) (fun hl => hk (Option.some.inj hl.1).symm)
      rw [((h k' j).1 hl).1] at hkey
      cases hkey
  · rw [Function.update_of_ne hj, halive j hj]
    split
    · rename_i hk
      refine iff_of_false (fun hl => hj (Option.some.inj hl).symm) ?_
      rintro ⟨hkj, hlive, hnot⟩
      exact hnot ((h k j).2 ⟨hk ▸ hkj, hlive⟩)
    · rename_i hk
      rw [h k' j]
      refine and_congr_right fun hkj => (and_iff_left fun hl => ?_).symm
      exact hk (Option.some.inj (hkj.symm.trans ((h k j).1 hl).1))

theorem erase (h : Keyed table key alive) (k : κ) {alive' : ι → Prop}
    (halive : ∀ j, key j ≠ none → (alive' j ↔ alive j ∧ table.lookup k ≠ some j)) :
    Keyed (table.erase k) key alive' := by
  intro k' j
  by_cases hk : k' = k
  · subst hk
    rw [AList.lookup_erase]
    refine iff_of_false (Option.some_ne_none j).symm ?_
    rintro ⟨hkj, hlive⟩
    obtain ⟨hlive, hnot⟩ := (halive j (by simp [hkj])).1 hlive
    exact hnot ((h k' j).2 ⟨hkj, hlive⟩)
  · rw [AList.lookup_erase_ne hk, h k' j]
    refine and_congr_right fun hkj => ?_
    rw [halive j (by simp [hkj])]
    refine (and_iff_left fun hl => ?_).symm
    exact hk (Option.some.inj (hkj.symm.trans ((h k j).1 hl).1))

/-- Nobody who was registered is found in an empty table. -/
theorem clear (key : ι → Option κ) {alive' : ι → Prop} (halive : ∀ j, key j ≠ none → ¬ alive' j) :
    Keyed (∅ : HashMap κ ι) key alive' := by
  intro k j
  rw [AList.lookup_empty]
  exact iff_of_false (Option.some_ne_none j).symm fun h => halive j (by simp [h.1]) h.2

end Keyed

end Luchta.Framework
