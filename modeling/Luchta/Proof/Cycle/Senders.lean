import Luchta.Proof.Cycle.Hang

/-!
# What a cycle does with one task

The way of a completion sender through a cycle, from the walker to its answer.

* `Passes`: where a sender may go next, and what the cycle has checked there.
* `passes_of_step`: every step of a cycle lets every sender pass, or stay.
* `stage_mono`: no sender comes back, so what happens to a task happens once.
* `runs_once`: a runner is started at most once, for a task that is to run, after its dependencies.
* `fast_stop`: after a failure no other task is decided on or run.
-/

namespace Luchta.Proof.Cycle

open Luchta.Framework Luchta.Impl Luchta.Spec
open Luchta.Proof.Walker (StateInv toEmit sendingNode settle_inv setRunning_labels)
open Relation (TransGen)

variable {g : TaskGraph} {rs : RandomState} {t : CycleTasks} {c c' d : RunCycle} {i j : Nat}

/-! ## The way of a sender -/

/-- The task is selected and can be run. -/
structure Runnable (t : CycleTasks) (i : Nat) : Prop where
  selected : t.tasksToRun i = true
  valid : t.invalid i = false
  command : t.hasCommand i = true

/-- The places of a task that the loop has let through. -/
def admitted : SenderPlace → Bool
  | .ready | .gone _ => false
  | .deciding | .decided _ | .held | .running => true

/-- Where the sender of task `i` may be after a step; `failed` is whether a task has failed before. -/
inductive Passes (t : CycleTasks) (failed : Bool) (i : Nat) :
    Option SenderPlace → Option SenderPlace → Prop
  | stay (place : Option SenderPlace) : Passes t failed i place place
  | emit : Passes t failed i none (some .ready)
  | refuse : Passes t failed i none (some (.gone false))
  | answer {place : SenderPlace} {b : Bool} (hplace : ∀ b, place ≠ .gone b) :
    Passes t failed i (some place) (some (.gone b))
  | letThrough {place : SenderPlace} (hrun : Runnable t i)
    (hfast : t.continueOnFailure = true ∨ failed = false)
    (hplace : place = .deciding ∧ t.skipEnabled i = true ∨
      (place = .held ∨ place = .running) ∧ t.skipEnabled i = false) :
    Passes t failed i (some .ready) (some place)
  | decide (decision : Option Prepared) : Passes t failed i (some .deciding) (some (.decided decision))
  | dispatch {sharedHit : Bool} {place : SenderPlace} (hplace : place = .held ∨ place = .running) :
    Passes t failed i (some (.decided (some (.run sharedHit)))) (some place)
  | resume : Passes t failed i (some .held) (some .running)

/-- How far a sender has come. -/
def stage : Option SenderPlace → Nat
  | none => 0
  | some .ready => 1
  | some .deciding => 2
  | some (.decided _) => 3
  | some .held => 4
  | some .running => 5
  | some (.gone _) => 6

theorem stage_le (place : SenderPlace) : 1 ≤ stage (some place) ∧ stage (some place) ≤ 6 := by
  cases place <;> simp [stage]

theorem stage_lt_gone {place : SenderPlace} (h : ∀ b, place ≠ .gone b) : stage (some place) < 6 := by
  cases place with
  | gone b => exact absurd rfl (h b)
  | _ => simp [stage]

namespace Passes

variable {failed : Bool} {p q : Option SenderPlace}

/-- A sender that does not stay comes farther. -/
theorem stage_lt (h : Passes t failed i p q) : p = q ∨ stage p < stage q := by
  cases h with
  | stay => exact .inl rfl
  | answer hplace => exact .inr (stage_lt_gone hplace)
  | letThrough _ _ hplace =>
    rcases hplace with ⟨rfl, -⟩ | ⟨rfl | rfl, -⟩ <;> exact .inr (by simp [stage])
  | dispatch hplace => rcases hplace with rfl | rfl <;> exact .inr (by simp [stage])
  | _ => exact .inr (by simp [stage])

theorem stage_le (h : Passes t failed i p q) : stage p ≤ stage q :=
  h.stage_lt.elim (fun heq => heq ▸ le_rfl) le_of_lt

theorem of_gone {b : Bool} (h : Passes t failed i (some (.gone b)) q) : q = some (.gone b) := by
  cases h with
  | stay => rfl
  | answer hplace => exact absurd rfl (hplace b)

/-- A sender that is admitted has been so, or its task can be run and nothing has stopped the loop. -/
theorem of_admitted {place : SenderPlace} (h : Passes t failed i p (some place))
    (ha : admitted place = true) :
    (∃ old, p = some old ∧ admitted old = true) ∨
      p = some .ready ∧ Runnable t i ∧ (t.continueOnFailure = true ∨ failed = false) := by
  cases h with
  | stay => exact .inl ⟨place, rfl, ha⟩
  | letThrough hrun hfast => exact .inr ⟨rfl, hrun, hfast⟩
  | emit => cases ha
  | refuse => cases ha
  | answer => cases ha
  | _ => exact .inl ⟨_, rfl, rfl⟩

end Passes

/-! ## Every step of a cycle -/

/-- The sender of one task moves, the others stay. -/
theorem passes_move {failed : Bool} (place : SenderPlace)
    (h : Passes t failed j (c.sender j) (some place)) (hs : c'.sender = Function.update c.sender j (some place))
    (i : Nat) : Passes t failed i (c.sender i) (c'.sender i) := by
  rw [hs, Function.update_apply]
  split
  · rename_i heq
    exact heq ▸ h
  · exact .stay _

/-- The sender of `i` is used or dropped. -/
theorem passes_gone {failed b : Bool} {place : SenderPlace} (hi : c.sender i = some place)
    (hplace : ∀ b, place ≠ .gone b) (hs : c'.sender = Function.update c.sender i (some (.gone b)))
    (j : Nat) : Passes t failed j (c.sender j) (c'.sender j) := by
  refine passes_move _ ?_ hs j
  rw [hi]
  exact .answer hplace

theorem passes_of_sender_eq {failed : Bool} (h : c'.sender = c.sender) (i : Nat) :
    Passes t failed i (c.sender i) (c'.sender i) := by
  rw [h]
  exact .stay _

theorem passes_endDispatch (failed : Bool) (i : Nat) :
    Passes t failed i (c.sender i) (c.endDispatch.sender i) := by
  simp only [RunCycle.endDispatch]
  split
  · rename_i h
    rw [h]
    exact .answer (by simp)
  · rename_i h
    rw [h]
    exact .answer (by simp)
  · exact .stay _

theorem passes_dropReceiver (failed : Bool) (i : Nat) :
    Passes t failed i (c.sender i) (c.dropReceiver.sender i) := by
  simp only [RunCycle.dropReceiver]
  split
  · rename_i h
    rw [h]
    exact .answer (by simp)
  · exact .stay _

theorem passes_cancel (failed : Bool) (i : Nat) :
    Passes t failed i (c.sender i) (c.endDispatch.dropReceiver.sender i) := by
  cases hi : c.sender i with
  | none =>
    have hnone : c.endDispatch.dropReceiver.sender i = none := by
      simp [RunCycle.dropReceiver, RunCycle.endDispatch, hi]
    rw [hnone]
    exact .stay _
  | some place =>
    cases place with
    | ready | decided _ | held =>
      have hgone : c.endDispatch.dropReceiver.sender i = some (.gone false) := by
        simp [RunCycle.dropReceiver, RunCycle.endDispatch, hi]
      rw [hgone]
      exact .answer (by simp)
    | _ =>
      rw [show c.endDispatch.dropReceiver.sender i = c.sender i by
        simp [RunCycle.dropReceiver, RunCycle.endDispatch, hi], hi]
      exact .stay _

theorem sender_triggerFastStop : (c.triggerFastStop t).sender = c.sender := by
  unfold RunCycle.triggerFastStop
  split <;> rfl

theorem sender_dispatchRun (c : RunCycle) (i : Nat) (paused : Bool) :
    ∃ place, (place = .held ∨ place = .running) ∧
      (c.dispatchRun i paused).sender = Function.update c.sender i (some place) := by
  unfold RunCycle.dispatchRun
  split
  · exact ⟨.held, .inl rfl, rfl⟩
  · exact ⟨.running, .inr rfl, rfl⟩

theorem passes_dispatchReadyTaskAsync (hi : c.sender i = some .ready) (paused : Bool) (j : Nat) :
    Passes t c.anyFailed j (c.sender j) ((c.dispatchReadyTaskAsync i t paused).sender j) := by
  have hanswer : ∀ {c' : RunCycle} {b : Bool}, c'.sender = Function.update c.sender i (some (.gone b)) →
      Passes t c.anyFailed j (c.sender j) (c'.sender j) := fun hs => passes_gone hi (by simp) hs j
  unfold RunCycle.dispatchReadyTaskAsync
  split
  · exact hanswer rfl
  rename_i hsel
  split
  · exact hanswer rfl
  rename_i hfast
  split
  · exact hanswer (by rw [RunCycle.move, sender_triggerFastStop])
  rename_i hvalid
  split
  · exact hanswer rfl
  rename_i hcmd
  have hrun : Runnable t i := ⟨by simpa using hsel, by simpa using hvalid, by simpa using hcmd⟩
  have hgo : t.continueOnFailure = true ∨ c.anyFailed = false := by
    simpa [or_iff_not_imp_left] using hfast
  split
  · refine passes_move .deciding ?_ rfl j
    rw [hi]
    exact .letThrough hrun hgo (.inl ⟨rfl, ‹_›⟩)
  · obtain ⟨place, hplace, hs⟩ := sender_dispatchRun c i paused
    refine passes_move _ ?_ hs j
    rw [hi]
    exact .letThrough hrun hgo (.inr ⟨hplace, by simpa using ‹¬t.skipEnabled i = true›⟩)

theorem passes_dispatchDecisionResult {prepared : Prepared}
    (hi : c.sender i = some (.decided (some prepared))) (restored paused failed : Bool) (j : Nat) :
    Passes t failed j (c.sender j) ((c.dispatchDecisionResult i restored paused prepared).sender j) := by
  have hanswer : ∀ {c' : RunCycle} {b : Bool}, c'.sender = Function.update c.sender i (some (.gone b)) →
      Passes t failed j (c.sender j) (c'.sender j) := fun hs => passes_gone hi (by simp) hs j
  cases prepared with
  | skip => exact hanswer rfl
  | run sharedHit =>
    simp only [RunCycle.dispatchDecisionResult]
    split
    · exact hanswer rfl
    · obtain ⟨place, hplace, hs⟩ := sender_dispatchRun c i paused
      refine passes_move _ ?_ hs j
      rw [hi]
      exact .dispatch hplace

theorem passes_of_walkStep {l : CycleLabel} (h : CycleInv g c) (hstep : c.walkStep rs l = some c')
    (j : Nat) : Passes t c.anyFailed j (c.sender j) (c'.sender j) := by
  cases l with
  | takeNext =>
    simp only [RunCycle.walkStep] at hstep
    split at hstep
    · obtain rfl := Option.some.inj hstep
      exact passes_of_sender_eq rfl j
    · obtain ⟨-, hstep⟩ := Option.ite_none_right_eq_some.1 hstep
      obtain rfl := Option.some.inj hstep
      exact passes_of_sender_eq rfl j
    · cases hstep
  | send =>
    simp only [RunCycle.walkStep] at hstep
    split at hstep
    · rename_i i ready hwalk
      have hnone : c.sender i = none := (h.sending (by simp [hwalk, sendingNode])).2.1
      split at hstep
      · obtain rfl := Option.some.inj hstep
        refine passes_move (.gone false) ?_ rfl j
        rw [hnone]
        exact .refuse
      · obtain ⟨-, hstep⟩ := Option.ite_none_right_eq_some.1 hstep
        obtain rfl := Option.some.inj hstep
        refine passes_move .ready ?_ rfl j
        rw [hnone]
        exact .emit
    · cases hstep
  | join i b =>
    simp only [RunCycle.walkStep, Option.ite_none_right_eq_some, Option.map_eq_some_iff] at hstep
    obtain ⟨-, w, -, rfl⟩ := hstep
    exact passes_of_sender_eq rfl j
  | stop =>
    simp only [RunCycle.walkStep, Option.ite_none_right_eq_some] at hstep
    obtain ⟨-, hstep⟩ := hstep
    obtain rfl := Option.some.inj hstep
    exact passes_of_sender_eq rfl j
  | _ => cases hstep

theorem passes_of_dispatchStep {l : CycleLabel} (h : CycleInv g c)
    (hstep : c.dispatchStep t l = some c') (j : Nat) :
    Passes t c.anyFailed j (c.sender j) (c'.sender j) := by
  cases l with
  | signal ok =>
    simp only [RunCycle.dispatchStep] at hstep
    split at hstep
    · obtain rfl := Option.some.inj hstep
      exact passes_endDispatch _ j
    · obtain rfl := Option.some.inj hstep
      exact passes_endDispatch _ j
    · cases hstep
  | receive paused =>
    simp only [RunCycle.dispatchStep] at hstep
    split at hstep
    · rename_i i ready _ hready
      obtain rfl := Option.some.inj hstep
      have hi : c.sender i = some .ready := h.ready_iff.2 (by simp [hready])
      exact passes_dispatchReadyTaskAsync (c := { c with ready := ready }) hi paused j
    · cases hstep
  | closed =>
    obtain ⟨-, hstep⟩ := Option.ite_none_right_eq_some.1 hstep
    obtain rfl := Option.some.inj hstep
    exact passes_endDispatch _ j
  | handle restored paused =>
    simp only [RunCycle.dispatchStep] at hstep
    split at hstep
    · rename_i i results _ _
      split at hstep
      · obtain rfl := Option.some.inj hstep
        exact passes_endDispatch _ j
      · rename_i prepared hi
        obtain rfl := Option.some.inj hstep
        exact passes_dispatchDecisionResult (c := { c with results := results }) hi restored paused _ j
      · cases hstep
    · cases hstep
  | resume =>
    simp only [RunCycle.dispatchStep] at hstep
    split at hstep
    · rename_i i hphase
      obtain rfl := Option.some.inj hstep
      refine passes_move .running ?_ rfl j
      rw [h.paused hphase]
      exact .resume
    · cases hstep
  | cancel =>
    simp only [RunCycle.dispatchStep] at hstep
    split at hstep
    · obtain rfl := Option.some.inj hstep
      exact passes_cancel _ j
    · obtain rfl := Option.some.inj hstep
      exact passes_cancel _ j
    · cases hstep
  | _ => cases hstep

theorem passes_of_windStep {l : CycleLabel} (hstep : c.windStep t l = some c') (j : Nat) :
    Passes t c.anyFailed j (c.sender j) (c'.sender j) := by
  cases l with
  | decide i decision =>
    simp only [RunCycle.windStep, Option.ite_none_right_eq_some] at hstep
    obtain ⟨hi, hstep⟩ := hstep
    split at hstep
    · obtain rfl := Option.some.inj hstep
      refine passes_move (.gone false) ?_ rfl j
      rw [hi]
      exact .answer (by simp)
    · obtain ⟨-, hstep⟩ := Option.ite_none_right_eq_some.1 hstep
      obtain rfl := Option.some.inj hstep
      refine passes_move (.decided decision) ?_ rfl j
      rw [hi]
      exact .decide decision
  | runDone i success =>
    simp only [RunCycle.windStep, Option.ite_none_right_eq_some] at hstep
    obtain ⟨hi, hstep⟩ := hstep
    have hanswer : ∀ {c' : RunCycle} {b : Bool}, c'.sender = Function.update c.sender i (some (.gone b)) →
        Passes t c.anyFailed j (c.sender j) (c'.sender j) := fun hs => passes_gone hi (by simp) hs j
    split at hstep
    · obtain rfl := Option.some.inj hstep
      exact hanswer rfl
    · obtain rfl := Option.some.inj hstep
      exact hanswer rfl
    · obtain rfl := Option.some.inj hstep
      exact hanswer (by rw [RunCycle.move, sender_triggerFastStop])
  | finalize =>
    simp only [RunCycle.windStep, Option.ite_none_right_eq_some] at hstep
    obtain ⟨-, hstep⟩ := hstep
    obtain rfl := Option.some.inj hstep
    split
    · exact passes_dropReceiver _ j
    · exact .stay _
  | finish =>
    simp only [RunCycle.windStep, Option.ite_none_right_eq_some] at hstep
    obtain ⟨-, hstep⟩ := hstep
    obtain rfl := Option.some.inj hstep
    exact passes_dropReceiver _ j
  | _ => cases hstep

theorem passes_of_step {l : CycleLabel} (h : CycleInv g c) (hstep : c.step rs t l = some c') (j : Nat) :
    Passes t c.anyFailed j (c.sender j) (c'.sender j) := by
  rcases step_cases c l with heq | heq | heq
  · exact passes_of_walkStep h (heq ▸ hstep) j
  · exact passes_of_dispatchStep h (heq ▸ hstep) j
  · exact passes_of_windStep (heq ▸ hstep) j

/-! ## The labels of the walker and the answers -/

/-- Every outcome that the walker has recorded is the answer that was given. -/
def Answered (c : RunCycle) : Prop :=
  ∀ i, ∀ b : Bool, labels c i = some (if b then .Succeeded else .Failed) → c.sender i = some (.gone b)

theorem Answered.of_labels (h : Answered c)
    (hlabels : ∀ i, ∀ b : Bool, labels c' i = some (if b then .Succeeded else .Failed) →
      labels c i = some (if b then .Succeeded else .Failed))
    (hpass : ∀ i, Passes t c.anyFailed i (c.sender i) (c'.sender i)) : Answered c' := fun i b hi =>
  Passes.of_gone (h i b (hlabels i b hi) ▸ hpass i)

theorem Answered.walkStep (t : CycleTasks) {l : CycleLabel} (h : Answered c) (hinv : CycleInv g c)
    (hstep : c.walkStep rs l = some c') : Answered c' := by
  have hpass : ∀ i, Passes t c.anyFailed i (c.sender i) (c'.sender i) := passes_of_walkStep hinv hstep
  cases l with
  | takeNext =>
    simp only [RunCycle.walkStep] at hstep
    split at hstep
    · obtain rfl := Option.some.inj hstep
      exact h
    · rename_i i ready hwalk
      obtain ⟨-, hstep⟩ := Option.ite_none_right_eq_some.1 hstep
      obtain rfl := Option.some.inj hstep
      have hready : Ready g.graph.Edge (labels c) i := hinv.toEmit_ready (by simp [hwalk, toEmit])
      refine h.of_labels (fun j b hj => ?_) hpass
      rw [labels, setRunning_labels hready.1] at hj
      split at hj
      · cases b <;> simp at hj
      · exact hj
    · cases hstep
  | send =>
    simp only [RunCycle.walkStep] at hstep
    split at hstep
    · split at hstep
      · obtain rfl := Option.some.inj hstep
        exact h.of_labels (fun _ _ hj => hj) hpass
      · obtain ⟨-, hstep⟩ := Option.ite_none_right_eq_some.1 hstep
        obtain rfl := Option.some.inj hstep
        exact h.of_labels (fun _ _ hj => hj) hpass
    · cases hstep
  | join i b =>
    simp only [RunCycle.walkStep, Option.ite_none_right_eq_some, Option.map_eq_some_iff] at hstep
    obtain ⟨⟨-, -, hi, hb⟩, w, hw, rfl⟩ := hstep
    obtain ⟨w', hw', -, hself, hother⟩ := settle_inv hinv.state (hinv.joined hi).1 b
    obtain rfl := Option.some.inj (hw'.symm.trans hw)
    intro j b' hj
    by_cases hji : j = i
    · subst hji
      have heq : b' = b := by
        rw [labels, hself] at hj
        cases b <;> cases b' <;> simp_all
      exact heq ▸ hb
    · refine h j b' ?_
      rcases hother j hji with heq | ⟨-, hs⟩
      · exact heq.symm.trans hj
      · rw [labels, hs] at hj
        cases b' <;> simp at hj
  | stop =>
    simp only [RunCycle.walkStep, Option.ite_none_right_eq_some] at hstep
    obtain ⟨-, hstep⟩ := hstep
    obtain rfl := Option.some.inj hstep
    exact h
  | _ => cases hstep

/-! ## What the other steps leave alone -/

/-- The walker is left alone; a failure is not forgotten, nor is a cancellation. -/
structure Keeps (c c' : RunCycle) : Prop where
  walker : c'.walker = c.walker
  walking : c'.walking = c.walking
  anyFailed : c.anyFailed = true → c'.anyFailed = true
  wasCancelled : c.wasCancelled = true → c'.wasCancelled = true

theorem Keeps.triggerFastStop (h : Keeps c c') : Keeps c (c'.triggerFastStop t) := by
  unfold RunCycle.triggerFastStop
  split
  · exact h
  · exact { h with anyFailed := fun _ => rfl }

theorem Keeps.move {place : SenderPlace} (h : Keeps c c') : Keeps c (c'.move i place) :=
  { h with }

theorem Keeps.dispatchRun (h : Keeps c c') (paused : Bool) : Keeps c (c'.dispatchRun i paused) := by
  unfold RunCycle.dispatchRun
  split
  · exact { h with }
  · exact h.move

theorem Keeps.dispatchReadyTaskAsync (h : Keeps c c') (paused : Bool) :
    Keeps c (c'.dispatchReadyTaskAsync i t paused) := by
  unfold RunCycle.dispatchReadyTaskAsync
  split
  · exact h.move
  split
  · exact h.move
  split
  · exact h.triggerFastStop.move
  split
  · exact h.move
  split
  · exact h.move
  · exact h.dispatchRun paused

theorem Keeps.dispatchDecisionResult (h : Keeps c c') (restored paused : Bool) (prepared : Prepared) :
    Keeps c (c'.dispatchDecisionResult i restored paused prepared) := by
  cases prepared with
  | skip => exact h.move
  | run sharedHit =>
    simp only [RunCycle.dispatchDecisionResult]
    split
    · exact h.move
    · exact h.dispatchRun paused

theorem keeps_of_dispatchStep {l : CycleLabel} (hstep : c.dispatchStep t l = some c') : Keeps c c' := by
  cases l with
  | signal ok =>
    simp only [RunCycle.dispatchStep] at hstep
    split at hstep
    · obtain rfl := Option.some.inj hstep
      exact ⟨rfl, rfl, id, id⟩
    · obtain rfl := Option.some.inj hstep
      exact ⟨rfl, rfl, id, id⟩
    · cases hstep
  | receive paused =>
    simp only [RunCycle.dispatchStep] at hstep
    split at hstep
    · rename_i i ready _ _
      obtain rfl := Option.some.inj hstep
      have hk : Keeps c { c with ready := ready } := ⟨rfl, rfl, id, id⟩
      exact hk.dispatchReadyTaskAsync paused
    · cases hstep
  | closed =>
    obtain ⟨-, hstep⟩ := Option.ite_none_right_eq_some.1 hstep
    obtain rfl := Option.some.inj hstep
    exact ⟨rfl, rfl, id, id⟩
  | handle restored paused =>
    simp only [RunCycle.dispatchStep] at hstep
    split at hstep
    · rename_i i results _ _
      split at hstep
      · obtain rfl := Option.some.inj hstep
        exact ⟨rfl, rfl, id, id⟩
      · rename_i prepared _
        obtain rfl := Option.some.inj hstep
        have hk : Keeps c { c with results := results } := ⟨rfl, rfl, id, id⟩
        exact hk.dispatchDecisionResult restored paused prepared
      · cases hstep
    · cases hstep
  | resume =>
    simp only [RunCycle.dispatchStep] at hstep
    split at hstep
    · obtain rfl := Option.some.inj hstep
      exact ⟨rfl, rfl, id, id⟩
    · cases hstep
  | cancel =>
    simp only [RunCycle.dispatchStep] at hstep
    split at hstep
    · obtain rfl := Option.some.inj hstep
      exact ⟨rfl, rfl, id, fun _ => rfl⟩
    · obtain rfl := Option.some.inj hstep
      exact ⟨rfl, rfl, id, fun _ => rfl⟩
    · cases hstep
  | _ => cases hstep

theorem keeps_of_windStep {l : CycleLabel} (hstep : c.windStep t l = some c') : Keeps c c' := by
  have hrefl : Keeps c c := ⟨rfl, rfl, id, id⟩
  cases l with
  | decide i decision =>
    simp only [RunCycle.windStep, Option.ite_none_right_eq_some] at hstep
    obtain ⟨-, hstep⟩ := hstep
    split at hstep
    · obtain rfl := Option.some.inj hstep
      exact hrefl.move
    · obtain ⟨-, hstep⟩ := Option.ite_none_right_eq_some.1 hstep
      obtain rfl := Option.some.inj hstep
      exact ⟨rfl, rfl, id, id⟩
  | runDone i success =>
    simp only [RunCycle.windStep, Option.ite_none_right_eq_some] at hstep
    obtain ⟨-, hstep⟩ := hstep
    split at hstep
    · obtain rfl := Option.some.inj hstep
      exact hrefl.move
    · obtain rfl := Option.some.inj hstep
      exact hrefl.move
    · obtain rfl := Option.some.inj hstep
      exact hrefl.triggerFastStop.move
  | finalize =>
    simp only [RunCycle.windStep, Option.ite_none_right_eq_some] at hstep
    obtain ⟨-, hstep⟩ := hstep
    obtain rfl := Option.some.inj hstep
    split
    · exact ⟨rfl, rfl, id, id⟩
    · exact ⟨rfl, rfl, id, id⟩
  | finish =>
    simp only [RunCycle.windStep, Option.ite_none_right_eq_some] at hstep
    obtain ⟨-, hstep⟩ := hstep
    obtain rfl := Option.some.inj hstep
    exact ⟨rfl, rfl, id, id⟩
  | _ => cases hstep

theorem flags_of_walkStep {l : CycleLabel} (hstep : c.walkStep rs l = some c') :
    c'.anyFailed = c.anyFailed ∧ c'.wasCancelled = c.wasCancelled := by
  cases l with
  | takeNext =>
    simp only [RunCycle.walkStep] at hstep
    split at hstep
    · obtain rfl := Option.some.inj hstep
      exact ⟨rfl, rfl⟩
    · obtain ⟨-, hstep⟩ := Option.ite_none_right_eq_some.1 hstep
      obtain rfl := Option.some.inj hstep
      exact ⟨rfl, rfl⟩
    · cases hstep
  | send =>
    simp only [RunCycle.walkStep] at hstep
    split at hstep
    · split at hstep
      · obtain rfl := Option.some.inj hstep
        exact ⟨rfl, rfl⟩
      · obtain ⟨-, hstep⟩ := Option.ite_none_right_eq_some.1 hstep
        obtain rfl := Option.some.inj hstep
        exact ⟨rfl, rfl⟩
    · cases hstep
  | join i b =>
    simp only [RunCycle.walkStep, Option.ite_none_right_eq_some, Option.map_eq_some_iff] at hstep
    obtain ⟨-, w, -, rfl⟩ := hstep
    exact ⟨rfl, rfl⟩
  | stop =>
    simp only [RunCycle.walkStep, Option.ite_none_right_eq_some] at hstep
    obtain ⟨-, hstep⟩ := hstep
    obtain rfl := Option.some.inj hstep
    exact ⟨rfl, rfl⟩
  | _ => cases hstep

theorem anyFailed_of_step {l : CycleLabel} (hstep : c.step rs t l = some c') (h : c.anyFailed = true) :
    c'.anyFailed = true := by
  rcases step_cases c l with heq | heq | heq
  · exact (flags_of_walkStep (heq ▸ hstep)).1.trans h
  · exact (keeps_of_dispatchStep (heq ▸ hstep)).anyFailed h
  · exact (keeps_of_windStep (heq ▸ hstep)).anyFailed h

theorem wasCancelled_of_step {l : CycleLabel} (hstep : c.step rs t l = some c') (h : c.wasCancelled = true) :
    c'.wasCancelled = true := by
  rcases step_cases c l with heq | heq | heq
  · exact (flags_of_walkStep (heq ▸ hstep)).2.trans h
  · exact (keeps_of_dispatchStep (heq ▸ hstep)).wasCancelled h
  · exact (keeps_of_windStep (heq ▸ hstep)).wasCancelled h

theorem Answered.step {l : CycleLabel} (h : Answered c) (hinv : CycleInv g c)
    (hstep : c.step rs t l = some c') : Answered c' := by
  have hkeeps : Keeps c c' → Answered c' := fun hk => by
    have hlabels : labels c' = labels c := by
      unfold labels
      rw [hk.walker]
    exact h.of_labels (fun i b hi => hlabels ▸ hi) (passes_of_step hinv hstep)
  rcases step_cases c l with heq | heq | heq
  · exact h.walkStep t hinv (heq ▸ hstep)
  · exact hkeeps (keeps_of_dispatchStep (heq ▸ hstep))
  · exact hkeeps (keeps_of_windStep (heq ▸ hstep))

/-! ## Whole runs -/

variable {ts : Toposort TaskNode}

theorem Answered.of_reachable (h : Reachable (cycleSystem ts rs g t) c) : Answered c := by
  refine h.invariant (I := Answered) ?_ fun s l s' hs hans _ hstep => hans.step (.of_reachable hs) hstep
  rintro _ ⟨w, hw, rfl⟩ i b hi
  obtain ⟨w', hw', -, hp, -⟩ := Luchta.Proof.Walker.fromGraph_inv ts rs (acyclic_of_fromGraph hw)
  obtain rfl := Option.some.inj (hw'.symm.trans hw)
  cases b <;> cases hp hi

/-- What the loop lets through can be run. -/
theorem runnable_of_admitted (h : Reachable (cycleSystem ts rs g t) c) {place : SenderPlace}
    (hi : c.sender i = some place) (ha : admitted place = true) : Runnable t i := by
  suffices hall : ∀ place, c.sender i = some place → admitted place = true → Runnable t i from
    hall place hi ha
  refine h.invariant (I := fun c => ∀ place, c.sender i = some place → admitted place = true → Runnable t i)
    ?_ fun s l s' hs hinv _ hstep place hi ha => ?_
  · rintro _ ⟨w, -, rfl⟩ place hi
    cases hi
  · have hpass : Passes t s.anyFailed i (s.sender i) (s'.sender i) := passes_of_step (.of_reachable hs) hstep i
    rw [hi] at hpass
    rcases hpass.of_admitted ha with ⟨old, hold, haold⟩ | ⟨-, hrun, -⟩
    · exact hinv old hold haold
    · exact hrun

theorem stage_mono (h : Reachable (cycleSystem ts rs g t) c)
    (hd : Reachable ((cycleSystem ts rs g t).resume c) d) (i : Nat) :
    stage (c.sender i) ≤ stage (d.sender i) := by
  refine hd.invariant (I := fun d => stage (c.sender i) ≤ stage (d.sender i)) ?_
    fun s l s' hs hle _ hstep => ?_
  · rintro _ rfl
    exact le_rfl
  · exact hle.trans (passes_of_step (.of_reachable (h.resume hs)) hstep i).stage_le

/-- With this step the runner of task `i` is started. -/
def Starts (i : Nat) (c c' : RunCycle) : Prop := c.sender i ≠ some .running ∧ c'.sender i = some .running

theorem Starts.lt (hs : Starts i c c') (h : CycleInv g c) {l : CycleLabel}
    (hstep : c.step rs t l = some c') : stage (c.sender i) < 5 := by
  have hpass : Passes t c.anyFailed i (c.sender i) (c'.sender i) := passes_of_step h hstep i
  rcases hpass.stage_lt with heq | hlt
  · exact absurd (heq.trans hs.2) hs.1
  · rwa [hs.2] at hlt

/-- A task whose sender is on its way runs, as the walker sees it, after its dependencies. -/
theorem succeeded_of_admitted (h : Reachable (cycleSystem ts rs g t) c) {place : SenderPlace}
    (hi : c.sender i = some place) (hplace : ∀ b, place ≠ .gone b) (hij : TransGen g.graph.Edge i j) :
    c.sender j = some (.gone true) := by
  have hinv : CycleInv g c := .of_reachable h
  have hrunning : labels c i = some .Running := by
    rcases hinv.owner hi with ⟨b, hb⟩ | hmem
    · exact absurd hb (hplace b)
    · exact (hinv.joined hmem).1
  have hj : labels c j = some .Succeeded := hinv.state.consistent.succeeded_below
    (fun k hk => hinv.state.consistent.started (.inl hrunning) hk) hij
  exact Answered.of_reachable h j true hj

/-- A runner is started only for a selected, valid task with a command, when everything it depends on has
been answered with success; and in no run is it started a second time. -/
theorem runs_once {l : CycleLabel} (h : Reachable (cycleSystem ts rs g t) c)
    (hstep : (cycleSystem ts rs g t).step c l = some c') (hs : Starts i c c') :
    Runnable t i ∧ (∀ j, TransGen g.graph.Edge i j → c.sender j = some (.gone true)) ∧
    ∀ d d' l', Reachable ((cycleSystem ts rs g t).resume c') d →
      (cycleSystem ts rs g t).step d l' = some d' → ¬ Starts i d d' := by
  have hc' : Reachable (cycleSystem ts rs g t) c' := h.step trivial hstep
  refine ⟨runnable_of_admitted hc' hs.2 rfl, fun j hij => ?_, fun d d' l' hd hdstep hds => ?_⟩
  · have hlt := hs.lt (.of_reachable h) hstep
    cases hi : c.sender i with
    | none =>
      have hpass : Passes t c.anyFailed i (c.sender i) (c'.sender i) :=
        passes_of_step (.of_reachable h) hstep i
      rw [hi, hs.2] at hpass
      cases hpass
    | some place =>
      refine succeeded_of_admitted h hi ?_ hij
      rintro b rfl
      simp [hi, stage] at hlt
  · have hle : 5 ≤ stage (d.sender i) := by
      have hmono := stage_mono hc' hd i
      rwa [hs.2] at hmono
    exact absurd (hds.lt (.of_reachable (hc'.resume hd)) hdstep) (by omega)

/-- One of two tasks is decided on and run. -/
theorem runs_once_pair : ∃ c c' l, Reachable pairCycle c ∧ pairCycle.step c l = some c' ∧ Starts 1 c c' ∧
    Runnable pairTasks 1 ∧
    ∀ d d' l', Reachable (pairCycle.resume c') d → pairCycle.step d l' = some d' → ¬ Starts 1 d d' := by
  have hview : ((WalkerState.fromGraph .kahn .id pair).bind fun w =>
      (pairCycle.run (fun _ _ => True) (.init .id w)
        (emitted ++ [.receive false, .decide 1 (some (.run false))])).bind fun c =>
        (pairCycle.step c (.handle false false)).map fun c' => (c.sender 1, c'.sender 1)) =
      some (some (.decided (some (.run false))), some .running) := by decide
  obtain ⟨w, hw, hrun⟩ := Option.bind_eq_some_iff.1 hview
  obtain ⟨c, hc, hstep⟩ := Option.bind_eq_some_iff.1 hrun
  obtain ⟨c', hc', hsenders⟩ := Option.map_eq_some_iff.1 hstep
  obtain ⟨hold, hnew⟩ := Prod.mk.inj hsenders
  have hreach : Reachable pairCycle c := Reach.run (.init ⟨w, hw, rfl⟩) hc
  have hstarts : Starts 1 c c' := ⟨by simp [hold], hnew⟩
  obtain ⟨hrunnable, -, honce⟩ := runs_once hreach hc' hstarts
  exact ⟨c, c', _, hreach, hc', hstarts, hrunnable, honce⟩

/-- Once a task has failed and the cycle does not go on after a failure, no task is decided on, held or run
that the loop had not let through before. -/
theorem fast_stop (ht : t.continueOnFailure = false) (h : Reachable (cycleSystem ts rs g t) c)
    (hfailed : c.anyFailed = true) (hi : ∀ place, c.sender i = some place → admitted place = false)
    (hd : Reachable ((cycleSystem ts rs g t).resume c) d) :
    ∀ place, d.sender i = some place → admitted place = false := by
  have hinv : d.anyFailed = true ∧ ∀ place, d.sender i = some place → admitted place = false := by
    refine hd.invariant (I := fun d => d.anyFailed = true ∧
      ∀ place, d.sender i = some place → admitted place = false) ?_ fun s l s' hs hinv _ hstep => ?_
    · rintro _ rfl
      exact ⟨hfailed, hi⟩
    · refine ⟨anyFailed_of_step hstep hinv.1, fun place hplace => ?_⟩
      have hpass : Passes t s.anyFailed i (s.sender i) (s'.sender i) :=
        passes_of_step (.of_reachable (h.resume hs)) hstep i
      rw [hplace] at hpass
      by_contra ha
      rcases hpass.of_admitted (by simpa using ha) with ⟨old, hold, haold⟩ | ⟨-, -, hgo | hgo⟩
      · simp [hinv.2 old hold] at haold
      · cases ht.symm.trans hgo
      · cases hinv.1.symm.trans hgo
  exact hinv.2

/-- The first of two tasks fails; the other one waits in the channel. -/
theorem fast_stop_pair : ∃ c, Reachable pairCycle c ∧ c.anyFailed = true ∧ c.sender 0 = some .ready ∧
    ∀ d, Reachable (pairCycle.resume c) d → ∀ place, d.sender 0 = some place → admitted place = false := by
  obtain ⟨w, c, hinit, hrun, hview⟩ := @pair_reach _ (fun c => (c.anyFailed, c.sender 0)) (true, some .ready)
    (emitted ++ [.receive false, .decide 1 (some (.run false)), .handle false false, .runDone 1 (some false)])
    (by decide)
  obtain ⟨hfailed, hready⟩ := Prod.mk.inj hview
  have hreach : Reachable pairCycle c := Reach.run (.init hinit) hrun
  refine ⟨c, hreach, hfailed, hready, fun d hd => fast_stop rfl hreach hfailed (fun place hplace => ?_) hd⟩
  obtain rfl := Option.some.inj (hready.symm.trans hplace)
  rfl

end Luchta.Proof.Cycle
