import Luchta.Impl.Walker

/-!
# Consistent schedules

What the outcomes of a dependency-ordered run have to look like, over any type of tasks and any
dependency relation: a labelling of the tasks is consistent if pending tasks can still succeed,
skipped tasks have a reason, and tasks that were started had all their dependencies.

* `ConsistentUpTo.advance`, `.fail`, `.skip`: what each step of a schedule preserves.
* `Consistent.exists_ready`: with nothing running, an unfinished schedule has a ready task.
* `Consistent.skipped_iff`: exactly the tasks above a failed one are skipped.
-/

namespace Luchta.Spec

open Luchta.Impl (NodeState)
open Relation (TransGen)

variable {ι : Type*} {dep : ι → ι → Prop} {σ : ι → Option NodeState}

/-- A task that will never succeed. -/
def Lost (σ : ι → Option NodeState) (i : ι) : Prop := σ i = some .Failed ∨ σ i = some .Skipped

/-- A task that has been handed out. -/
def Started (σ : ι → Option NodeState) (i : ι) : Prop :=
  σ i = some .Running ∨ σ i = some .Succeeded ∨ σ i = some .Failed

def Terminal (σ : ι → Option NodeState) (i : ι) : Prop := ∃ s, σ i = some s ∧ s.terminal

/-- A task that may be handed out next. -/
def Ready (dep : ι → ι → Prop) (σ : ι → Option NodeState) (i : ι) : Prop :=
  σ i = some .Pending ∧ ∀ j, dep i j → σ j = some .Succeeded

/-- The labels, `none` outside the tasks, agree with the dependencies, except that the pending
tasks of `frontier` may already have a lost dependency. -/
structure ConsistentUpTo (dep : ι → ι → Prop) (frontier : ι → Prop) (σ : ι → Option NodeState) :
    Prop where
  closed : ∀ {i j}, dep i j → (σ i).isSome ∧ (σ j).isSome
  pending : ∀ {i j}, σ i = some .Pending → dep i j → Lost σ j → frontier i
  skipped : ∀ {i}, σ i = some .Skipped → ∃ j, dep i j ∧ Lost σ j
  started : ∀ {i j}, Started σ i → dep i j → σ j = some .Succeeded

abbrev Consistent (dep : ι → ι → Prop) (σ : ι → Option NodeState) : Prop :=
  ConsistentUpTo dep (fun _ => False) σ

/-! ## What the steps of a schedule preserve -/

section Steps

variable [DecidableEq ι] {frontier : ι → Prop}

theorem lost_update {i j : ι} {s : NodeState} (hs : Lost σ j → j ≠ i) (h : Lost σ j) :
    Lost (Function.update σ i (some s)) j := by
  rwa [Lost, Function.update_of_ne (hs h)]

/-- Starting a ready task, or finishing a running one. -/
theorem ConsistentUpTo.advance (h : ConsistentUpTo dep frontier σ) {i : ι} {s : NodeState}
    (hi : (σ i).isSome) (hlost : ¬ Lost σ i) (hsucc : σ i ≠ some .Succeeded)
    (hs : s = .Running ∨ s = .Succeeded) (hdeps : ∀ j, dep i j → σ j = some .Succeeded) :
    ConsistentUpTo dep frontier (Function.update σ i (some s)) where
  closed hd := by
    refine ⟨?_, ?_⟩ <;> rw [Function.update_apply] <;> split
    exacts [rfl, (h.closed hd).1, rfl, (h.closed hd).2]
  pending {a b} ha hd hb := by
    have hai : a ≠ i := by rintro rfl; rcases hs with rfl | rfl <;> simp at ha
    have hbi : b ≠ i := by rintro rfl; rcases hs with rfl | rfl <;> simp [Lost] at hb
    rw [Function.update_of_ne hai] at ha
    rw [Lost, Function.update_of_ne hbi] at hb
    exact h.pending ha hd hb
  skipped {a} ha := by
    have hai : a ≠ i := by rintro rfl; rcases hs with rfl | rfl <;> simp at ha
    rw [Function.update_of_ne hai] at ha
    obtain ⟨b, hd, hb⟩ := h.skipped ha
    exact ⟨b, hd, lost_update (fun hl heq => hlost (heq ▸ hl)) hb⟩
  started {a b} ha hd := by
    have hb : σ b = some .Succeeded := by
      by_cases hai : a = i
      · exact hdeps b (hai ▸ hd)
      · exact h.started (by simpa [Started, Function.update_of_ne hai] using ha) hd
    rwa [Function.update_of_ne (by rintro rfl; exact hsucc hb)]

/-- A failure puts its dependents on the frontier. -/
theorem ConsistentUpTo.fail (h : Consistent dep σ) {i : ι} (hi : σ i = some .Running) :
    ConsistentUpTo dep (dep · i) (Function.update σ i (some .Failed)) where
  closed hd := by
    refine ⟨?_, ?_⟩ <;> rw [Function.update_apply] <;> split
    exacts [rfl, (h.closed hd).1, rfl, (h.closed hd).2]
  pending {a b} ha hd hb := by
    have hai : a ≠ i := by rintro rfl; simp at ha
    rw [Function.update_of_ne hai] at ha
    by_cases hbi : b = i
    · exact hbi ▸ hd
    · rw [Lost, Function.update_of_ne hbi] at hb
      exact (h.pending ha hd hb).elim
  skipped {a} ha := by
    have hai : a ≠ i := by rintro rfl; simp at ha
    rw [Function.update_of_ne hai] at ha
    obtain ⟨b, hd, hb⟩ := h.skipped ha
    refine ⟨b, hd, lost_update (fun hl heq => ?_) hb⟩
    simp [Lost, heq, hi] at hl
  started {a b} ha hd := by
    have hb : σ b = some .Succeeded := by
      by_cases hai : a = i
      · exact h.started (.inl (hai ▸ hi)) hd
      · exact h.started (by simpa [Started, Function.update_of_ne hai] using ha) hd
    rwa [Function.update_of_ne (by rintro rfl; simp [hi] at hb)]

/-- Skipping a pending task with a lost dependency puts its dependents on the frontier. -/
theorem ConsistentUpTo.skip (h : ConsistentUpTo dep frontier σ) {i : ι}
    (hi : σ i = some .Pending) (hlost : ∃ j, dep i j ∧ Lost σ j) :
    ConsistentUpTo dep (fun a => a ≠ i ∧ frontier a ∨ dep a i)
      (Function.update σ i (some .Skipped)) := by
  have hkeep : ∀ {b}, Lost σ b → Lost (Function.update σ i (some .Skipped)) b := by
    refine fun hb => lost_update (fun hl heq => ?_) hb
    simp [Lost, heq, hi] at hl
  refine ⟨fun hd => ?_, fun {a b} ha hd hb => ?_, fun {a} ha => ?_, fun {a b} ha hd => ?_⟩
  · refine ⟨?_, ?_⟩ <;> rw [Function.update_apply] <;> split
    exacts [rfl, (h.closed hd).1, rfl, (h.closed hd).2]
  · have hai : a ≠ i := by rintro rfl; simp at ha
    rw [Function.update_of_ne hai] at ha
    by_cases hbi : b = i
    · exact .inr (hbi ▸ hd)
    · rw [Lost, Function.update_of_ne hbi] at hb
      exact .inl ⟨hai, h.pending ha hd hb⟩
  · by_cases hai : a = i
    · obtain ⟨b, hd, hb⟩ := hlost
      exact ⟨b, hai ▸ hd, hkeep hb⟩
    · rw [Function.update_of_ne hai] at ha
      obtain ⟨b, hd, hb⟩ := h.skipped ha
      exact ⟨b, hd, hkeep hb⟩
  · have hai : a ≠ i := by rintro rfl; simp [Started] at ha
    have hb := h.started (by simpa [Started, Function.update_of_ne hai] using ha) hd
    rwa [Function.update_of_ne (by rintro rfl; simp [hi] at hb)]

end Steps

theorem ConsistentUpTo.mono {frontier frontier' : ι → Prop} (h : ConsistentUpTo dep frontier σ)
    (hf : ∀ i, σ i = some .Pending → frontier i → frontier' i) :
    ConsistentUpTo dep frontier' σ :=
  ⟨h.closed, fun ha hd hb => hf _ ha (h.pending ha hd hb), h.skipped, h.started⟩

/-! ## What consistency means -/

namespace Consistent

theorem lost_of_dep (h : Consistent dep σ) {i j : ι} (hd : dep i j) (hj : Lost σ j) :
    σ i = some .Skipped := by
  have hne : σ j ≠ some .Succeeded := by rcases hj with hj | hj <;> simp [hj]
  obtain ⟨s, hs⟩ := Option.isSome_iff_exists.1 (h.closed hd).1
  cases s with
  | Pending => exact (h.pending hs hd hj).elim
  | Running => exact absurd (h.started (.inl hs) hd) hne
  | Succeeded => exact absurd (h.started (.inr (.inl hs)) hd) hne
  | Failed => exact absurd (h.started (.inr (.inr hs)) hd) hne
  | Skipped => exact hs

/-- With nothing running, a minimal unfinished task waits for nothing. -/
theorem exists_ready (h : Consistent dep σ) (hwf : WellFounded fun i j => dep j i)
    (hrun : ∀ i, σ i ≠ some .Running) {i : ι} (hi : σ i = some .Pending) :
    ∃ j, Ready dep σ j := by
  obtain ⟨m, hm, hmin⟩ := hwf.has_min {j | σ j = some .Pending} ⟨i, hi⟩
  refine ⟨m, hm, fun j hd => ?_⟩
  obtain ⟨s, hs⟩ := Option.isSome_iff_exists.1 (h.closed hd).2
  cases s with
  | Pending => exact absurd hd (hmin j hs)
  | Running => exact absurd hs (hrun j)
  | Succeeded => exact hs
  | Failed => exact (h.pending hm hd (.inl hs)).elim
  | Skipped => exact (h.pending hm hd (.inr hs)).elim

/-- Every skipped task is above a failed one. -/
theorem failed_below (h : Consistent dep σ) (hwf : WellFounded fun i j => dep j i)
    {i : ι} (hi : σ i = some .Skipped) : ∃ j, TransGen dep i j ∧ σ j = some .Failed := by
  induction i using hwf.induction with
  | _ i ih =>
    obtain ⟨j, hd, hj | hj⟩ := h.skipped hi
    · exact ⟨j, .single hd, hj⟩
    · obtain ⟨k, hk, hf⟩ := ih j hd hj
      exact ⟨k, .head hd hk, hf⟩

/-- Everything above a lost task is skipped. -/
theorem skipped_above (h : Consistent dep σ) {i j : ι} (hij : TransGen dep i j)
    (hj : Lost σ j) : σ i = some .Skipped := by
  induction hij using TransGen.head_induction_on with
  | single hd => exact h.lost_of_dep hd hj
  | head hd _ ih => exact h.lost_of_dep hd (.inr ih)

/-- Everything below a task whose dependencies have succeeded has succeeded. -/
theorem succeeded_below (h : Consistent dep σ) {i j : ι} (hi : ∀ j, dep i j → σ j = some .Succeeded)
    (hij : TransGen dep i j) : σ j = some .Succeeded := by
  induction hij with
  | single hd => exact hi _ hd
  | tail _ hd ih => exact h.started (.inr (.inl ih)) hd

theorem skipped_iff (h : Consistent dep σ) (hwf : WellFounded fun i j => dep j i) {i : ι} :
    σ i = some .Skipped ↔ ∃ j, TransGen dep i j ∧ σ j = some .Failed :=
  ⟨h.failed_below hwf, fun ⟨_, hij, hj⟩ => h.skipped_above hij (.inl hj)⟩

end Consistent

end Luchta.Spec
