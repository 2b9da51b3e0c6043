import Mathlib.Algebra.BigOperators.Fin
import Mathlib.Algebra.Order.BigOperators.Group.Finset
import Mathlib.Data.Fintype.BigOperators

/-!
# Threads and locks

Threads are an index type, the state of all threads is a function `x` from it, and a step of the
thread `i` is `Function.update x i a`. A lock is the thread that holds it, if any.

* `Owns`: the lock is held by exactly the thread that is inside the critical section.
* `Owns.cross`: it stays so where a step takes the lock to get in and gives it back to get out.
* `forall_update`: what holds of the thread that steps and of all others holds of all.
* `sum_update`: a weight summed over all threads changes by that of the thread that steps.
-/

namespace Luchta.Framework

variable {ι α : Type*}

/-- The lock's owner is inside, and nobody else is. -/
def Owns (owner : Option ι) (inside : ι → Prop) : Prop := ∀ i, inside i ↔ owner = some i

namespace Owns

variable {owner : Option ι} {inside : ι → Prop} {i j : ι}

theorem unique (h : Owns owner inside) (hi : inside i) (hj : inside j) : i = j :=
  Option.some.inj (((h i).1 hi).symm.trans ((h j).1 hj))

theorem outside (h : Owns none inside) : ¬ inside i := fun hi =>
  Option.some_ne_none i ((h i).1 hi).symm

theorem congr {inside' : ι → Prop} (h : Owns owner inside) (hi : ∀ i, inside' i ↔ inside i) :
    Owns owner inside' := fun i => (hi i).trans (h i)

variable [DecidableEq ι] {x : ι → α} {P : α → Prop} {a : α}

/-- What a step of `i` does to the lock, if `a` says that it is inside before and `b` after. -/
inductive Crosses (owner : Option ι) (i : ι) (a b : Prop) : Option ι → Prop
  | keep (h : b ↔ a) : Crosses owner i a b owner
  | acquire (hfree : owner = none) (hb : b) : Crosses owner i a b (some i)
  | release (ha : a) (hb : ¬ b) : Crosses owner i a b none

theorem cross {owner' : Option ι} (h : Owns owner fun j => P (x j))
    (hc : Crosses owner i (P (x i)) (P a) owner') :
    Owns owner' fun j => P (Function.update x i a j) := by
  intro j
  by_cases hj : j = i
  · subst hj
    simp only [Function.update_self]
    cases hc with
    | keep hiff => exact hiff.trans (h j)
    | acquire _ hb => exact iff_of_true hb rfl
    | release _ hb => exact iff_of_false hb (Option.some_ne_none j).symm
  · simp only [Function.update_of_ne hj]
    cases hc with
    | keep => exact h j
    | acquire hfree _ =>
      subst hfree
      exact iff_of_false h.outside fun heq => hj (Option.some.inj heq).symm
    | release ha _ => exact iff_of_false (fun hPj => hj (h.unique hPj ha)) (Option.some_ne_none j).symm

end Owns

/-! ## All threads -/

theorem forall_update [DecidableEq ι] {x : ι → α} {i : ι} {a : α} (P : α → Prop) (ha : P a)
    (hx : ∀ j, j ≠ i → P (x j)) : ∀ j, P (Function.update x i a j) :=
  (Function.forall_update_iff x fun _ => P).2 ⟨ha, hx⟩

theorem of_update [DecidableEq ι] {x : ι → α} {i j : ι} {a b : α} (h : Function.update x i a j = b) :
    j = i ∧ a = b ∨ j ≠ i ∧ x j = b := by
  by_cases hj : j = i
  · subst hj
    exact .inl ⟨rfl, (Function.update_self j a x).symm.trans h⟩
  · exact .inr ⟨hj, (Function.update_of_ne hj a x).symm.trans h⟩

variable [Fintype ι]

theorem sum_update [DecidableEq ι] {M : Type*} [AddCommMonoid M] (f : α → M) (x : ι → α) (i : ι)
    (a : α) :
    ∑ j, f (Function.update x i a j) + f (x i) = ∑ j, f (x j) + f a := by
  have hx := Finset.add_sum_erase Finset.univ (fun j => f (x j)) (Finset.mem_univ i)
  have ha := Finset.add_sum_erase Finset.univ (fun j => f (Function.update x i a j))
    (Finset.mem_univ i)
  have hrest : ∑ j ∈ Finset.univ.erase i, f (Function.update x i a j) =
      ∑ j ∈ Finset.univ.erase i, f (x j) := by
    apply Finset.sum_congr rfl
    intro j hj
    rw [Function.update_of_ne (Finset.ne_of_mem_erase hj)]
  simp only [Function.update_self] at ha
  rw [← hx, ← ha, hrest]
  ac_rfl

/-- A change of every thread that costs at most `c` each. -/
theorem sum_map_le {f : α → Nat} {g : α → α} {c : Nat} (x : ι → α)
    (hg : ∀ a, f (g a) ≤ f a + c) : ∑ j, f (g (x j)) ≤ ∑ j, f (x j) + Fintype.card ι * c := by
  calc ∑ j, f (g (x j)) ≤ ∑ j, (f (x j) + c) := Finset.sum_le_sum fun j _ => hg (x j)
    _ = ∑ j, f (x j) + Fintype.card ι * c := by
      rw [Finset.sum_add_distrib, Finset.sum_const, Finset.card_univ, smul_eq_mul]

end Luchta.Framework
