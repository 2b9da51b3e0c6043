import Luchta.Framework.System
import Mathlib.Algebra.Order.BigOperators.Group.Finset

/-!
# Winding down

What a system does when it is left to itself, so that only labels of one kind (`inner`) are taken.

* `Quiet`: no such label is enabled.
* `Settles`: every run of such labels is bounded, and where it can go no further a property holds.
* `Settles.of_measure`: a measure that every inner step lowers, and the property in quiet states.
* `sum_lower`: a measure that is a sum falls with one of its terms.
* `not_settles`: a run that never gets to the property.
-/

namespace Luchta.Framework

variable {σ ℓ : Type*}

/-- A run of this many steps that all satisfy `C`. -/
inductive Runs (S : System σ ℓ) (C : σ → ℓ → Prop) : σ → Nat → σ → Prop
  | nil (s : σ) : Runs S C s 0 s
  | cons {s t u : σ} {l : ℓ} {n : Nat} (hc : C s l) (hs : S.step s l = some t)
      (h : Runs S C t n u) : Runs S C s (n + 1) u

def Quiet (S : System σ ℓ) (inner : ℓ → Prop) (s : σ) : Prop := ∀ l, inner l → S.step s l = none

/-- Left to itself, the system comes to rest, and to rest only where `P` holds. -/
def Settles (S : System σ ℓ) (C : σ → ℓ → Prop) (inner : ℓ → Prop) (P : σ → Prop) (s : σ) : Prop :=
  ∃ bound, ∀ n t, Runs S (fun s l => inner l ∧ C s l) s n t → n ≤ bound ∧ (Quiet S inner t → P t)

variable {S : System σ ℓ} {C D : σ → ℓ → Prop} {inner : ℓ → Prop} {P Q : σ → Prop} {s t : σ}

theorem Runs.invariant {I : σ → Prop} {μ : σ → Nat}
    (hstep : ∀ s l t, I s → C s l → S.step s l = some t → I t ∧ μ t < μ s) {n : Nat}
    (h : Runs S C s n t) (hs : I s) : I t ∧ n + μ t ≤ μ s := by
  induction h with
  | nil s => exact ⟨hs, by omega⟩
  | cons hc hst _ ih =>
    obtain ⟨ht, hlt⟩ := hstep _ _ _ hs hc hst
    obtain ⟨hu, hle⟩ := ih ht
    exact ⟨hu, by omega⟩

theorem Settles.of_measure {I : σ → Prop} (μ : σ → Nat)
    (hstep : ∀ s l t, I s → inner l → C s l → S.step s l = some t → I t ∧ μ t < μ s)
    (hquiet : ∀ s, I s → Quiet S inner s → P s) (hs : I s) : Settles S C inner P s := by
  refine ⟨μ s, fun n t h => ?_⟩
  obtain ⟨ht, hle⟩ := h.invariant (fun s l t hs hl => hstep s l t hs hl.1 hl.2) hs
  exact ⟨by omega, hquiet t ht⟩

/-- A sum of which no term grows and one falls by `k` falls by `k`. -/
theorem sum_lower {ι : Type*} [DecidableEq ι] {A : Finset ι} {f f' : ι → Nat} {i : ι} {k : Nat}
    (hi : i ∈ A) (hk : f' i + k ≤ f i) (hother : ∀ j ≠ i, f' j ≤ f j) :
    ∑ j ∈ A, f' j + k ≤ ∑ j ∈ A, f j := by
  rw [← Finset.add_sum_erase A f hi, ← Finset.add_sum_erase A f' hi]
  have hrest : ∑ j ∈ A.erase i, f' j ≤ ∑ j ∈ A.erase i, f j :=
    Finset.sum_le_sum fun j hj => hother j (Finset.ne_of_mem_erase hj)
  omega

/-- A run that can be continued can be continued for long. -/
theorem exists_runs {I : σ → Prop}
    (hI : ∀ s, I s → Quiet S inner s ∨ ∃ l t, (inner l ∧ C s l) ∧ S.step s l = some t ∧ I t)
    (hs : I s) (k : Nat) :
    (∃ n t, Runs S (fun s l => inner l ∧ C s l) s n t ∧ I t ∧ Quiet S inner t) ∨
      ∃ t, Runs S (fun s l => inner l ∧ C s l) s k t := by
  induction k generalizing s with
  | zero => exact .inr ⟨s, .nil s⟩
  | succ k ih =>
    rcases hI s hs with hquiet | ⟨l, u, hc, hstep, hu⟩
    · exact .inl ⟨0, s, .nil s, hs, hquiet⟩
    · rcases ih hu with ⟨n, t, hrun, ht, hquiet⟩ | ⟨t, hrun⟩
      · exact .inl ⟨n + 1, t, .cons hc hstep hrun, ht, hquiet⟩
      · exact .inr ⟨t, .cons hc hstep hrun⟩

/-- Left to itself, the system may go on without ever getting to `P`. -/
theorem not_settles {I : σ → Prop}
    (hI : ∀ s, I s → Quiet S inner s ∨ ∃ l t, (inner l ∧ C s l) ∧ S.step s l = some t ∧ I t)
    (hP : ∀ s, I s → ¬ P s) (hs : I s) : ¬ Settles S C inner P s := by
  rintro ⟨bound, hbound⟩
  rcases exists_runs hI hs (bound + 1) with ⟨n, t, hrun, ht, hquiet⟩ | ⟨t, hrun⟩
  · exact hP t ht ((hbound n t hrun).2 hquiet)
  · exact absurd (hbound _ t hrun).1 (by omega)

theorem not_settles_of_quiet (h : Quiet S inner s) (hP : ¬ P s) : ¬ Settles S C inner P s := by
  refine not_settles (I := (· = s)) (fun t ht => .inl ?_) (fun t ht => ?_) rfl
  · exact ht ▸ h
  · exact ht ▸ hP

end Luchta.Framework
