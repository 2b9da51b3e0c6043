import Luchta.Proof.WatchLoop.Invariant

/-!
# The watch loop over whole runs

* `marks_settled`: no change is lost.
* `pending_cancels`: a cycle that runs while something is pending is cancelled.
* `watch_settles`: left to itself, the loop comes to rest. `rank` counts the steps of the driver: what is
  noted once an iteration has taken the changes costs another iteration.
-/

namespace Luchta.Proof.WatchLoop

open Luchta.Framework Luchta.Impl

variable {packagePaths : Finset Path} {s t : WatchLoop} {m : Mark} {l : LoopLabel} {p : PendingState}

/-! ## Marks -/

/-- Everything waits, and nobody is about to wake the driver. -/
def Resting (s : WatchLoop) : Prop :=
  s.driver = .parked ∧ s.wake = false ∧ (s.drain = .receive ∨ s.drain = .done)

theorem Resting.closed (h : Resting s) (hs : LoopInv s) : ¬ m.Open s := by
  obtain ⟨hdriver, hwake, hdrain⟩ := h
  rintro (hm | hm | hm)
  · rcases hdrain with hd | hd <;> simp [hd, Mark.Arriving] at hm
  · rcases hs.parked hdriver (hasChanges_iff.2 ⟨m, hm⟩) with hw | hw | ⟨closed, hw⟩
    · simp [hwake] at hw
    · rcases hdrain with hd | hd <;> simp [hd, WillCancel] at hw
    · rcases hdrain with hd | hd <;> simp [hd] at hw
  · simp [hdriver, Mark.Taken] at hm

theorem ended_step (hs : Ended s) (h : s.step l = some t) : Ended t := by
  cases l with
  | receive batch | close =>
    simp only [WatchLoop.step] at h
    split at h
    · obtain rfl := Option.some.inj h
      exact hs
    · cases h
  | drain => rwa [Ended, (frame_drain h).1]
  | finish result =>
    rcases hs with hd | hd | ⟨message, hd⟩
    · simp only [WatchLoop.step, hd] at h
      obtain rfl := Option.some.inj h
      cases result <;> exact .inr (by simp)
    · simp only [WatchLoop.step, hd, reduceCtorEq] at h
    · simp only [WatchLoop.step, hd, reduceCtorEq] at h
  | drive now | wake | complete output now | judge affected expanded | shutdown =>
    rcases hs with hd | hd | ⟨message, hd⟩ <;>
      simp only [WatchLoop.step, WatchLoop.driveStep, hd, ite_self, reduceCtorEq] at h

def drainLoad : DrainPlace → Nat
  | .receive | .done => 0
  | .markFailed _ _ => 3
  | .markStructural _ => 5
  | .markRescan _ => 4
  | .add _ => 3
  | .cancel _ => 2
  | .notify _ => 1

theorem drainLoad_lt (h : s.drainStep = some t) : drainLoad t.drain < drainLoad s.drain := by
  unfold WatchLoop.drainStep at h
  split at h
  case h_1 | h_2 => cases h
  all_goals
    rename_i hd
    obtain rfl := Option.some.inj h
    simp only [hd, drainLoad]
  case h_6 | h_8 => split_ifs <;> simp
  all_goals decide

theorem drainStep_eq_none : s.drainStep = none ↔ s.drain = .receive ∨ s.drain = .done := by
  unfold WatchLoop.drainStep
  split <;> simp_all

/-- Where something is pending while a cycle runs, the drain task cancels the cycle, if it has not yet. -/
theorem pending_cancels {plan : CyclePlan} {token : Nat} (h : Reachable (watchLoop packagePaths) s)
    (hd : s.driver = .running plan token) (hp : s.pending.hasChanges = true) :
    Settles (watchLoop packagePaths) (fun _ _ => True) (· = .drain) (fun t => token ∈ t.cancelled) s := by
  have hs : LoopInv s := .of_reachable h
  refine Settles.of_measure (I := fun t => LoopInv t ∧ t.driver = .running plan token ∧
    (token ∈ t.cancelled ∨ WillCancel t.drain)) (fun t => drainLoad t.drain) ?_ ?_
    ⟨hs, hd, hs.cancels plan token hd hp⟩
  · rintro u l v ⟨hu, hrun, hc⟩ rfl - hstep
    have hdriver : v.driver = .running plan token := (frame_drain hstep).1.trans hrun
    have hv : LoopInv v := hu.drain hstep
    refine ⟨⟨hv, hdriver, ?_⟩, drainLoad_lt hstep⟩
    rcases hc with hc | hw
    · exact .inl ((frame_drain hstep).2.1 hc)
    · rcases willCancel_drain hstep hw with hw | ⟨closed, -, rfl⟩
      · exact .inr hw
      · exact .inl ((hv.running plan token hdriver).resolve_left (by simp [cancelIfActive_active]))
  · rintro u ⟨-, -, hc⟩ hquiet
    refine hc.resolve_right fun hw => ?_
    rcases drainStep_eq_none.1 (hquiet .drain rfl) with hd | hd <;> simp [hd, WillCancel] at hw


/-! ## Rest -/

/-- How many steps the driver takes until it waits, if it has taken all that is pending. -/
def stage : DriverPlace → Nat
  | .clear _ => 23
  | .requeue _ => 22
  | .markStructural _ => 21
  | .markRescan => 20
  | .checkFailure => 18
  | .takeRescan => 17
  | .takeStructural _ => 16
  | .check (.sleep _ _) => 15
  | .awaiting (.sleep _ _) => 14
  | .check (.recover _ _) => 13
  | .awaiting (.recover _ _) => 12
  | .drain _ _ => 11
  | .judge _ _ => 10
  | .check (.lock _) => 9
  | .awaiting (.lock _) => 8
  | .set _ => 7
  | .caughtUp _ _ => 6
  | .running _ _ => 3
  | .finished _ => 2
  | .hasChanges | .stopping => 1
  | .parked | .stopped | .failed _ => 0

/-- Something is pending that this iteration will not take, so that there will be another one. -/
def late (p : PendingState) : DriverPlace → Bool
  | .takeRescan => p.watcherFailure.isSome
  | .takeStructural _ => p.watcherFailure.isSome || p.rescan
  | .check (.sleep _ _) | .awaiting (.sleep _ _) | .check (.recover _ _) | .awaiting (.recover _ _)
  | .drain _ _ => p.watcherFailure.isSome || p.rescan || p.structural
  | .check (.lock _) | .awaiting (.lock _) | .judge _ _ | .set _ | .caughtUp _ _ | .running _ _
  | .finished _ | .hasChanges => p.hasChanges
  | _ => false

def rank (p : PendingState) (place : DriverPlace) : Nat := stage place + if late p place then 18 else 0

theorem rank_le (p p' : PendingState) (place : DriverPlace) : rank p' place ≤ rank p place + 18 := by
  unfold rank
  split_ifs <;> omega

theorem rank_lt {p' : PendingState} {place place' : DriverPlace} (hstage : stage place' < stage place)
    (hlate : late p' place' = true → late p place = true) : rank p' place' < rank p place := by
  unfold rank
  split_ifs with h h'
  · omega
  · exact absurd (hlate h) h'
  · omega
  · omega

theorem rank_check_le (p : PendingState) (operation : WatchOperation) :
    rank p (.check operation) ≤ rank p (.awaiting operation) + 1 := by
  have hlate : late p (.check operation) = late p (.awaiting operation) := by cases operation <;> rfl
  have hstage : stage (.check operation) = stage (.awaiting operation) + 1 := by cases operation <;> rfl
  rw [rank, rank, hlate, hstage]
  omega

/-- A step of the driver brings it closer to where it waits. -/
def Lowers (s t : WatchLoop) : Prop :=
  t.drain = s.drain ∧ t.wake = s.wake ∧ rank t.pending t.driver < rank s.pending s.driver

theorem lowers_checkWatcherFailure {go : WatchLoop → Option WatchLoop}
    (h : s.checkWatcherFailure go = some t) (hstage : 0 < stage s.driver)
    (hgo : ∀ u, s.pending.watcherFailure = none → go s = some u → Lowers s u) : Lowers s t := by
  rcases checkWatcherFailure_cases h with ⟨message, pending, rfl⟩ | ⟨hnone, h⟩
  · exact ⟨rfl, rfl, hstage.trans_le (Nat.le_add_right _ _)⟩
  · exact hgo t hnone h

theorem lowers_drive {now : Nat} (h : s.driveStep now = some t) : Lowers s t := by
  unfold WatchLoop.driveStep at h
  split at h
  case h_1 operation hd =>
    refine lowers_checkWatcherFailure h (by rw [hd]; cases operation <;> simp [stage]) fun u _ hu => ?_
    obtain rfl := Option.some.inj hu
    refine ⟨rfl, rfl, ?_⟩
    rw [hd]
    cases operation <;> exact rank_lt (by simp [stage]) id
  case h_12 hd =>
    refine lowers_checkWatcherFailure h (by simp [hd, stage]) fun u hnone hu => ?_
    obtain rfl := Option.some.inj hu
    exact ⟨rfl, rfl, by simp [hd, rank, stage, late, hnone]⟩
  case h_3 hd =>
    split at h
    all_goals
      rename_i hc
      obtain rfl := Option.some.inj h
      exact ⟨rfl, rfl, by simp [hd, rank, stage, late, hc]⟩
  all_goals try cases h
  all_goals
    rename_i hd
    refine ⟨rfl, rfl, ?_⟩
    rw [hd]
    dsimp only
  case h_2 => exact rank_lt (by simp [stage]) id
  case h_4 | h_5 => simp [rank, stage, late]
  case h_6 | h_7 | h_8 =>
    simp only [rank]
    split_ifs <;> simp_all [stage, late]
  case h_9 | h_10 => exact rank_lt (by simp [stage]) (by simp [late])
  case h_11 => split_ifs <;> simp [rank, stage, late, *]
  case h_13 => exact rank_lt (by simp [stage]) (by simp [late, PendingState.takeRescan])
  case h_14 => split_ifs <;> exact rank_lt (by simp [stage]) (by simp [late, PendingState.takeStructural])
  case h_15 =>
    repeat' split
    all_goals
      refine rank_lt (by simp [stage]) ?_
      simp only [late, PendingState.drainNonEmpty, PendingState.hasChanges, PendingState.isEmpty]
      grind

theorem lowers_complete {operation : WatchOperation} {output : WatchOutput} {now : Nat}
    (hd : s.driver = .awaiting operation)
    (hc : ∀ answers b, output = .recovered answers →
      (recoverStructuralWatchState answers s.packagePaths).2 ≠ .Retry b)
    (h : s.complete operation output now = some t) : Lowers s t := by
  unfold WatchLoop.complete at h
  split at h
  case h_5 answers =>
    dsimp only at h
    split at h
    case h_2 hr => exact absurd hr (hc answers _ rfl)
    all_goals
      obtain rfl := Option.some.inj h
      refine ⟨rfl, rfl, ?_⟩
      rw [hd]
      exact rank_lt (by simp [stage]) (by simp [late])
  case h_6 => cases h
  all_goals
    obtain rfl := Option.some.inj h
    refine ⟨rfl, rfl, ?_⟩
    rw [hd]
    exact rank_lt (by simp [stage]) (by simp [late])

/-- The loop is left to itself: no batch comes in, and nobody asks it to end. -/
def Inner : LoopLabel → Prop
  | .receive _ | .close | .shutdown => False
  | _ => True

/-- Where the workspace is recovered, it is not to be tried again. -/
def Recovers (s : WatchLoop) : LoopLabel → Prop
  | .complete (.recovered answers) _ => ∀ b, (recoverStructuralWatchState answers s.packagePaths).2 ≠ .Retry b
  | _ => True

def load (s : WatchLoop) : Nat := 40 * drainLoad s.drain + 20 * s.wake.toNat + rank s.pending s.driver

theorem Lowers.load_lt (h : Lowers s t) : load t < load s := by
  rw [load, load, h.1, h.2.1]
  exact Nat.add_lt_add_left h.2.2 _

theorem load_step (h : s.step l = some t) (hl : Inner l) (hr : Recovers s l) : load t < load s := by
  cases l with
  | receive batch | close | shutdown => cases hl
  | drain =>
    have hlt := drainLoad_lt h
    have hle := rank_le s.pending t.pending s.driver
    have hbool := Bool.toNat_le t.wake
    rw [load, load, (frame_drain h).1]
    omega
  | drive now => exact (lowers_drive h).load_lt
  | wake =>
    simp only [WatchLoop.step] at h
    split at h
    · rename_i hw
      split at h
      · rename_i hd
        obtain rfl := Option.some.inj h
        simp only [load, hd, hw, rank, stage]
        split_ifs <;> simp
      · rename_i operation hd
        obtain rfl := Option.some.inj h
        have hle := rank_check_le s.pending operation
        simp only [load, hd, hw, Bool.toNat_true, Bool.toNat_false]
        omega
      · cases h
    · cases h
  | complete output now =>
    simp only [WatchLoop.step] at h
    split at h
    · rename_i operation hd
      refine (lowers_checkWatcherFailure h ?_ fun u _ hu => lowers_complete hd ?_ hu).load_lt
      · rw [hd]
        cases operation <;> simp [stage]
      · rintro answers b rfl
        exact hr b
    · cases h
  | judge affected expanded =>
    simp only [WatchLoop.step] at h
    split at h
    · rename_i hd
      obtain rfl := Option.some.inj h
      refine Lowers.load_lt ⟨rfl, rfl, ?_⟩
      rw [hd]
      dsimp only
      split_ifs <;> exact rank_lt (by simp [stage]) id
    · cases h
  | finish result =>
    simp only [WatchLoop.step] at h
    split at h
    · rename_i hd
      obtain rfl := Option.some.inj h
      exact Lowers.load_lt ⟨rfl, rfl, by rw [hd]; exact rank_lt (by simp [stage]) id⟩
    · rename_i hd
      obtain rfl := Option.some.inj h
      cases result <;> exact Lowers.load_lt ⟨rfl, rfl, by rw [hd]; exact rank_lt (by simp [stage]) id⟩
    · cases h

theorem quiet_cases (h : Quiet (watchLoop packagePaths) Inner s) :
    s.driver = .stopped ∨ (∃ message, s.driver = .failed message) ∨ Resting s := by
  have hdrain := drainStep_eq_none.1 (h .drain trivial)
  have hdrive : s.driveStep 0 = none := h (.drive 0) trivial
  have hcheck : ∀ {go : WatchLoop → Option WatchLoop}, (∀ u, go u ≠ none) →
      s.checkWatcherFailure go ≠ none := by
    intro go hgo
    unfold WatchLoop.checkWatcherFailure
    split
    · simp
    · exact hgo _
  cases hd : s.driver with
  | stopped => exact .inl rfl
  | failed message => exact .inr (.inl ⟨message, rfl⟩)
  | parked =>
    refine .inr (.inr ⟨hd, ?_, hdrain⟩)
    have hwake : s.step .wake = none := h .wake trivial
    simpa [WatchLoop.step, hd] using hwake
  | awaiting operation =>
    have hcomplete : ∀ output, s.step (.complete output 0) = none :=
      fun output => h (.complete output 0) trivial
    simp only [WatchLoop.step, hd] at hcomplete
    cases operation with
    | lock plan => exact absurd (hcomplete (.locked (.ok true))) (hcheck (by simp [WatchLoop.complete]))
    | sleep structural rescan => exact absurd (hcomplete .slept) (hcheck (by simp [WatchLoop.complete]))
    | recover structural rescan =>
      refine absurd (hcomplete (.recovered ⟨.error "", .error "", .ok ()⟩)) (hcheck ?_)
      simp [WatchLoop.complete, recoverStructuralWatchState, diffDiscoveredPackagePaths]
  | running plan token | stopping =>
    have hfinish : s.step (.finish .finished) = none := h (.finish .finished) trivial
    simp [WatchLoop.step, hd] at hfinish
  | judge changed structural =>
    have hjudge : s.step (.judge ∅ ∅) = none := h (.judge ∅ ∅) trivial
    simp [WatchLoop.step, hd] at hjudge
  | check operation | checkFailure =>
    simp only [WatchLoop.driveStep, hd] at hdrive
    exact absurd hdrive (hcheck (by simp))
  | caughtUp plan token =>
    simp only [WatchLoop.driveStep, hd] at hdrive
    split at hdrive <;> cases hdrive
  | clear plan => cases plan <;> simp [WatchLoop.driveStep, hd] at hdrive
  | finished result => cases result <;> simp [WatchLoop.driveStep, hd] at hdrive
  | _ => simp [WatchLoop.driveStep, hd] at hdrive

/-- Left to itself, the loop comes to rest with no mark open, or ends, if the workspace can be recovered. -/
theorem watch_settles (h : Reachable (watchLoop packagePaths) s) :
    Settles (watchLoop packagePaths) Recovers Inner
      (fun t => t.driver = .stopped ∨ (∃ message, t.driver = .failed message) ∨
        Resting t ∧ ∀ m : Mark, ¬ m.Open t) s := by
  refine Settles.of_measure (I := LoopInv) load (fun u l v hu hl hr hstep => ?_) (fun u hu hquiet => ?_)
    (.of_reachable h)
  · exact ⟨hu.step hstep, load_step hstep hl hr⟩
  · exact (quiet_cases hquiet).imp_right (Or.imp_right fun hrest => ⟨hrest, fun m => hrest.closed hu⟩)

/-! ## Runs -/

def changedFile : Path := ⟨[.rootDir, .normal "a"]⟩

/-- A loop with no packages, as it starts. -/
def startedLoop : WatchLoop :=
  ⟨.empty, false, none, 0, [], .default, ∅, .receive, .check (.lock .initial)⟩

/-- The first cycle is about to begin. -/
def beginning : List LoopLabel := [.drive 0, .complete (.locked (.ok true)) 0, .drive 0]

/-- A batch comes in and is noted. -/
def noting : List LoopLabel :=
  [.receive { WatchBatch.default with changedPaths := {changedFile} }, .drain, .drain, .drain]

/-- The driver goes on; no cycle begins here with nothing pending. -/
def Forward (s : WatchLoop) : LoopLabel → Bool
  | .drive _ => match s.driver with
    | .caughtUp _ _ => s.pending.hasChanges
    | _ => true
  | _ => false

theorem not_settles_of_forward (h : Forward s l = true) : ¬ m.Settles s l := by
  rintro ⟨-, -, -, hs⟩
  unfold Forward at h
  split at h
  · split at h
    · rename_i hd
      simp only [hd] at hs
      simp [h] at hs
    · rename_i hd
      split at hs <;> simp_all
  · cases h

/-- A change comes in while the first cycle runs. -/
theorem pending_cancels_running : ∃ s, Reachable (watchLoop ∅) s ∧ s.driver = .running .initial 0 ∧
    s.cancelled = [] ∧ Settles (watchLoop ∅) (fun _ _ => True) (· = .drain) (fun t => 0 ∈ t.cancelled) s := by
  have hrun : ((watchLoop ∅).run (fun _ _ => True) startedLoop (beginning ++ .drive 0 :: noting)).map
      (fun s => (s.driver, s.pending.hasChanges, s.cancelled)) = some (.running .initial 0, true, []) := by
    decide +kernel
  obtain ⟨s, hs, hview⟩ := Option.map_eq_some_iff.1 hrun
  obtain ⟨hd, hview⟩ := Prod.mk.inj hview
  obtain ⟨hp, hc⟩ := Prod.mk.inj hview
  have hreach : Reachable (watchLoop ∅) s := Reach.run (.init rfl) hs
  exact ⟨s, hreach, hd, hc, pending_cancels hreach hd hp⟩

theorem watch_settles_started : Settles (watchLoop ∅) Recovers Inner (fun t => t.driver = .stopped ∨
    (∃ message, t.driver = .failed message) ∨ Resting t ∧ ∀ m : Mark, ¬ m.Open t) startedLoop :=
  watch_settles (.init rfl)

end Luchta.Proof.WatchLoop
