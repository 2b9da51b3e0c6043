import Luchta.Framework.Progress
import Luchta.Proof.WatchLoop.Marks

/-!
# Wake-ups and cancellation

* `noted_drain`, `willCancel_drain`: what the drain task has noted, it is about to cancel the cycle for.
* `Entered`: what a step of the driver leaves where it waits or runs a cycle.
* `LoopInv`: the driver does not wait past a change, and no cycle runs past one.
-/

namespace Luchta.Proof.WatchLoop

open Luchta.Framework Luchta.Impl

variable {packagePaths : Finset Path} {s t : WatchLoop} {m : Mark} {l : LoopLabel} {d : DrainPlace}

/-- The drain task has noted a change, and is yet to cancel the cycle. -/
def WillCancel : DrainPlace → Prop
  | .markRescan batch => batch.structural = true
  | .add batch => batch.structural = true ∨ batch.rescan = true
  | .cancel _ => True
  | _ => False

def WillWake (d : DrainPlace) : Prop := WillCancel d ∨ ∃ closed, d = .notify closed

@[simp] theorem cancelIfActive_active : s.cancelIfActive.active = none := by
  unfold WatchLoop.cancelIfActive
  split
  · rfl
  · assumption

/-! ## Steps of the drain task -/

theorem noted_drain (h : s.drainStep = some t) (ht : t.pending.hasChanges = true) :
    s.pending.hasChanges = true ∨ WillCancel t.drain := by
  unfold WatchLoop.drainStep at h
  split at h
  case h_1 | h_2 => cases h
  all_goals obtain rfl := Option.some.inj h
  case h_3 => exact .inr trivial
  case h_4 => grind [WillCancel]
  case h_5 => grind [WillCancel]
  case h_6 batch _ =>
    simp only [PendingState.add, PendingState.hasChanges] at ht ⊢
    split_ifs at ht ⊢ with h1 <;> simp_all [WillCancel]
  case h_7 => exact .inl (by simpa using ht)
  case h_8 => exact .inl ht

theorem willCancel_drain (h : s.drainStep = some t) (hw : WillCancel s.drain) :
    WillCancel t.drain ∨
      ∃ closed, s.drain = .cancel closed ∧ t = { s.cancelIfActive with drain := .notify closed } := by
  unfold WatchLoop.drainStep at h
  split at h
  case h_1 | h_2 => cases h
  all_goals
    rename_i hd
    obtain rfl := Option.some.inj h
    simp only [hd, WillCancel] at hw ⊢
  case h_5 => exact .inl (.inl hw)
  case h_6 => rw [if_pos (by grind)]; exact .inl trivial
  case h_7 => exact .inr ⟨_, rfl, rfl⟩

theorem willWake_drain (h : s.drainStep = some t) (hw : WillWake s.drain) :
    WillWake t.drain ∨ t.wake = true := by
  rcases hw with hw | ⟨closed, hd⟩
  · rcases willCancel_drain h hw with hw | ⟨closed, -, rfl⟩
    · exact .inl (.inl hw)
    · exact .inl (.inr ⟨_, rfl⟩)
  · simp only [WatchLoop.drainStep, hd] at h
    exact .inr (by rw [← Option.some.inj h])

/-- The drain task leaves the driver alone, and does not take tokens away but to cancel them. -/
theorem frame_drain (h : s.drainStep = some t) : t.driver = s.driver ∧ s.cancelled ⊆ t.cancelled ∧
    (s.wake = true → t.wake = true) ∧
      ∀ token, s.active = some token → t.active = some token ∨ token ∈ t.cancelled := by
  unfold WatchLoop.drainStep at h
  split at h
  case h_1 | h_2 => cases h
  all_goals obtain rfl := Option.some.inj h
  case h_7 =>
    unfold WatchLoop.cancelIfActive
    split <;> simp_all
  all_goals exact ⟨rfl, List.Subset.refl _, by simp, fun _ => .inl⟩

/-! ## Steps of the driver -/

/-- What a step of the driver leaves where it waits, or is at a cycle. -/
structure Entered (s t : WatchLoop) : Prop where
  drain : t.drain = s.drain
  parked : t.driver = .parked → t.pending.hasChanges = false
  caughtUp : ∀ plan token, t.driver = .caughtUp plan token → t.active = some token
  running : ∀ plan token, t.driver = .running plan token → s.driver = .caughtUp plan token ∧
    t.pending.hasChanges = false ∧ t.active = s.active ∧ t.cancelled = s.cancelled

theorem Entered.of_driver (hdrain : t.drain = s.drain) (hp : t.driver ≠ .parked)
    (hc : ∀ plan token, t.driver ≠ .caughtUp plan token) (hr : ∀ plan token, t.driver ≠ .running plan token) :
    Entered s t :=
  ⟨hdrain, fun h => absurd h hp, fun _ _ h => absurd h (hc _ _), fun _ _ h => absurd h (hr _ _)⟩

theorem entered_checkWatcherFailure {go : WatchLoop → Option WatchLoop}
    (h : s.checkWatcherFailure go = some t) (hgo : ∀ u, go s = some u → Entered s u) : Entered s t := by
  rcases checkWatcherFailure_cases h with ⟨message, pending, rfl⟩ | ⟨-, h⟩
  · exact .of_driver rfl (by simp) (by simp) (by simp)
  · exact hgo t h

theorem entered_drive {now : Nat} (h : s.driveStep now = some t) : Entered s t := by
  unfold WatchLoop.driveStep at h
  split at h
  case h_1 | h_12 =>
    refine entered_checkWatcherFailure h fun u hu => ?_
    obtain rfl := Option.some.inj hu
    exact .of_driver rfl (by simp) (by simp) (by simp)
  case h_2 =>
    obtain rfl := Option.some.inj h
    exact ⟨rfl, by simp, by simp, by simp⟩
  case h_3 =>
    rename_i hd
    split at h
    · obtain rfl := Option.some.inj h
      exact .of_driver rfl (by simp) (by simp) (by simp)
    · rename_i hc
      obtain rfl := Option.some.inj h
      exact ⟨rfl, by simp, by simp, by simp_all⟩
  case h_11 =>
    obtain rfl := Option.some.inj h
    refine ⟨rfl, fun hp => ?_, ?_, ?_⟩
    · by_contra hc
      simp [Bool.eq_true_of_not_eq_false hc] at hp
    · split_ifs <;> simp
    · split_ifs <;> simp
  all_goals try cases h
  all_goals
    refine .of_driver rfl ?_ ?_ ?_
    all_goals
      dsimp only
      repeat' split
      all_goals simp

theorem entered_complete {operation : WatchOperation} {output : WatchOutput} {now : Nat}
    (h : s.complete operation output now = some t) : Entered s t := by
  unfold WatchLoop.complete at h
  split at h
  case h_5 =>
    dsimp only at h
    split at h
    all_goals
      obtain rfl := Option.some.inj h
      exact .of_driver rfl (by simp) (by simp) (by simp)
  case h_6 => cases h
  all_goals
    obtain rfl := Option.some.inj h
    exact .of_driver rfl (by simp) (by simp) (by simp)

/-- A step is one of the drain task, or one of the driver. -/
theorem step_cases (h : s.step l = some t) :
    (s.drain = .receive ∧ t = { s with drain := t.drain }) ∨ (l = .drain ∧ s.drainStep = some t) ∨
      Entered s t := by
  cases l with
  | receive batch | close =>
    simp only [WatchLoop.step] at h
    split at h
    · rename_i hd
      obtain rfl := Option.some.inj h
      exact .inl ⟨hd, rfl⟩
    · cases h
  | drain => exact .inr (.inl ⟨rfl, h⟩)
  | drive now => exact .inr (.inr (entered_drive h))
  | complete output now =>
    simp only [WatchLoop.step] at h
    split at h
    · exact .inr (.inr (entered_checkWatcherFailure h fun u hu => entered_complete hu))
    · cases h
  | wake | judge affected expanded | finish result | shutdown =>
    simp only [WatchLoop.step] at h
    repeat' split at h
    all_goals try cases h
    all_goals
      refine .inr (.inr (.of_driver rfl ?_ ?_ ?_))
      all_goals
        dsimp only
        all_goals simp

/-! ## The invariant -/

/-- The driver is woken for what is pending, and a cycle cancelled. -/
structure LoopInv (s : WatchLoop) : Prop where
  parked : s.driver = .parked → s.pending.hasChanges = true → s.wake = true ∨ WillWake s.drain
  caughtUp : ∀ plan token, s.driver = .caughtUp plan token → s.active = some token ∨ token ∈ s.cancelled
  running : ∀ plan token, s.driver = .running plan token → s.active = some token ∨ token ∈ s.cancelled
  cancels : ∀ plan token, s.driver = .running plan token → s.pending.hasChanges = true →
    token ∈ s.cancelled ∨ WillCancel s.drain

theorem LoopInv.drain (hs : LoopInv s) (h : s.drainStep = some t) : LoopInv t := by
  obtain ⟨hdriver, hcancelled, hwake, hactive⟩ := frame_drain h
  have hheld : ∀ token, s.active = some token ∨ token ∈ s.cancelled →
      t.active = some token ∨ token ∈ t.cancelled := fun token h => h.elim (hactive token) fun h => .inr (hcancelled h)
  refine ⟨fun hp ht => ?_, fun plan token hd => ?_, fun plan token hd => ?_, fun plan token hd ht => ?_⟩
  · rcases noted_drain h ht with hpending | hw
    · rcases hs.parked (hdriver ▸ hp) hpending with hw | hw
      · exact .inl (hwake hw)
      · exact (willWake_drain h hw).symm
    · exact .inr (.inl hw)
  · exact hheld token (hs.caughtUp plan token (hdriver ▸ hd))
  · exact hheld token (hs.running plan token (hdriver ▸ hd))
  · rcases noted_drain h ht with hpending | hw
    · rcases hs.cancels plan token (hdriver ▸ hd) hpending with hc | hw
      · exact .inl (hcancelled hc)
      · rcases willCancel_drain h hw with hw | ⟨closed, -, rfl⟩
        · exact .inr hw
        · exact .inl ((hheld token (hs.running plan token (hdriver ▸ hd))).resolve_left (by simp))
    · exact .inr hw

theorem LoopInv.enter (hs : LoopInv s) (h : Entered s t) : LoopInv t := by
  refine ⟨fun hp ht => ?_, fun plan token hd => ?_, fun plan token hd => ?_, fun plan token hd ht => ?_⟩
  · rw [h.parked hp] at ht
    cases ht
  · exact .inl (h.caughtUp plan token hd)
  · obtain ⟨hold, -, hactive, hcancelled⟩ := h.running plan token hd
    rw [hactive, hcancelled]
    exact hs.caughtUp plan token hold
  · rw [(h.running plan token hd).2.1] at ht
    cases ht

theorem LoopInv.step (hs : LoopInv s) (h : s.step l = some t) : LoopInv t := by
  rcases step_cases h with ⟨hd, he⟩ | ⟨-, h⟩ | h
  · have hnone : ¬ WillCancel s.drain := by simp [hd, WillCancel]
    have hno : ¬ WillWake s.drain := by simp [WillWake, hd, WillCancel]
    rw [he]
    exact ⟨fun hp ht => .inl ((hs.parked hp ht).resolve_right hno), hs.caughtUp, hs.running,
      fun plan token hd ht => .inl ((hs.cancels plan token hd ht).resolve_right hnone)⟩
  · exact hs.drain h
  · exact hs.enter h

theorem LoopInv.of_reachable (h : Reachable (watchLoop packagePaths) s) : LoopInv s := by
  refine h.invariant ?_ fun s l t _ hs _ h => hs.step h
  rintro _ rfl
  exact ⟨by simp, by simp, by simp, by simp⟩

end Luchta.Proof.WatchLoop
