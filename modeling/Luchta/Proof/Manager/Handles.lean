import Luchta.Proof.Worker.Stuck

/-!
# What a handle knows of its process

* `Follows`: what a step of a round trip makes of its phase.
* `SameFlags`: what round trips, the writer and the reader leave alone.
* `Truthful`: a handle says only of a process that is gone that it is. No step changes that.
-/

namespace Luchta.Proof.Manager

open Luchta.Framework Luchta.Impl Luchta.Proof.Worker

variable {n : Nat} {i : Fin n}

/-! ## Round trips -/

/-- The next phase of a round trip on the handle. -/
inductive Follows (h : WorkerHandle n) : DispatchPhase → DispatchPhase → Prop
  | exited (message : WorkerMessage) (hexited : h.exited = true) :
      Follows h (.checkExited message) (.elsewhere message)
  | running (message : WorkerMessage) : Follows h (.checkExited message) (.checkWriter message)
  | alive (message : WorkerMessage) : Follows h (.checkWriter message) (.insert message)
  | noWriter (message : WorkerMessage) (hwriter : h.writerTx = false) :
      Follows h (.checkWriter message) (.elsewhere message)
  | insert (message : WorkerMessage) : Follows h (.insert message) (.cloneWriter message)
  | clone (message : WorkerMessage) (hwriter : h.writerTx = true) :
      Follows h (.cloneWriter message) (.enqueue message)
  | notCloned (message : WorkerMessage) (error : WorkerError) :
      Follows h (.cloneWriter message) (.remove message (.error error))
  | enqueue (message : WorkerMessage) : Follows h (.enqueue message) (.await message)
  | notEnqueued (message : WorkerMessage) (error : WorkerError) :
      Follows h (.enqueue message) (.remove message (.error error))
  | await (message : WorkerMessage) : Follows h (.await message) (.await message)
  | answered (message : WorkerMessage) (result : Except WorkerError WorkerResponse) :
      Follows h (.await message) (.remove message result)
  | remove (message : WorkerMessage) (result : Except WorkerError WorkerResponse) :
      Follows h (.remove message result) (.returned message result)

theorem dispatchStep_follows {h h' : WorkerHandle n} (hstep : h.dispatchStep i = some h') :
    Follows h (h.dispatches i) (h'.dispatches i) := by
  have hphase : ∀ {phase : DispatchPhase}, h'.dispatches = Function.update h.dispatches i phase →
      Follows h (h.dispatches i) phase → Follows h (h.dispatches i) (h'.dispatches i) := by
    intro phase heq hfollows
    rwa [heq, Function.update_self]
  unfold WorkerHandle.dispatchStep at hstep
  split at hstep
  case h_1 => cases hstep
  case h_2 => cases hstep
  case h_3 => cases hstep
  case h_4 message heq =>
    obtain rfl := Option.some.inj hstep
    refine hphase rfl ?_
    rw [heq]
    split
    · exact .exited message ‹_›
    · exact .running message
  case h_5 message heq =>
    obtain rfl := Option.some.inj hstep
    refine hphase rfl ?_
    rw [heq]
    split
    · exact .alive message
    · exact .noWriter message (Bool.eq_false_of_not_eq_true ‹_›)
  case h_6 message heq =>
    obtain rfl := Option.some.inj hstep
    exact hphase rfl (heq ▸ .insert message)
  case h_7 message heq =>
    obtain rfl := Option.some.inj hstep
    refine hphase rfl ?_
    rw [heq]
    split
    · exact .clone message ‹_›
    · exact .notCloned message _
  case h_8 message heq =>
    split at hstep
    · obtain rfl := Option.some.inj hstep
      exact hphase rfl (heq ▸ .notEnqueued message _)
    · split at hstep
      · obtain rfl := Option.some.inj hstep
        exact hphase rfl (heq ▸ .enqueue message)
      · cases hstep
  case h_9 message heq =>
    split at hstep
    · obtain rfl := Option.some.inj hstep
      refine hphase rfl ?_
      rw [heq]
      unfold WorkerHandle.takeResponse
      split
      · exact .answered message _
      · exact .await message
    · split at hstep
      · cases hstep
      · obtain rfl := Option.some.inj hstep
        exact hphase rfl (heq ▸ .answered message _)
  case h_10 message result heq =>
    obtain rfl := Option.some.inj hstep
    exact hphase rfl (heq ▸ .remove message result)

/-- A handle that is found dead says so. -/
theorem dead_of_elsewhere {h h' : WorkerHandle n} {message : WorkerMessage}
    (hstep : h.dispatchStep i = some h') (helsewhere : h'.dispatches i = .elsewhere message) :
    h.exited = true ∨ h.writerTx = false := by
  have hfollows := dispatchStep_follows hstep
  rw [helsewhere] at hfollows
  generalize h.dispatches i = phase at hfollows
  cases hfollows with
  | exited _ hexited => exact .inl hexited
  | noWriter _ hwriter => exact .inr hwriter

/-- Only a job that is being registered comes into the map. -/
theorem alive_of_step {h h' : WorkerHandle n} {j : Fin n} (hstep : h.dispatchStep i = some h')
    (hj : Alive h'.jobs j) : Alive h.jobs j ∨ j = i ∧ ∃ message, h.dispatches i = .insert message := by
  unfold WorkerHandle.dispatchStep at hstep
  split at hstep
  case h_6 message heq =>
    obtain rfl := Option.some.inj hstep
    by_cases hji : j = i
    · exact .inr ⟨hji, message, heq⟩
    · exact .inl (alive_of_insert hji hj)
  case h_8 =>
    split at hstep
    · obtain rfl := Option.some.inj hstep
      exact .inl hj
    · obtain ⟨-, heq⟩ := Option.ite_none_right_eq_some.1 hstep
      obtain rfl := Option.some.inj heq
      exact .inl hj
  case h_9 =>
    split at hstep
    · obtain rfl := Option.some.inj hstep
      exact .inl hj
    · obtain ⟨-, heq⟩ := Option.ite_none_left_eq_some.1 hstep
      obtain rfl := Option.some.inj heq
      exact .inl hj
  case h_10 =>
    obtain rfl := Option.some.inj hstep
    exact .inl (alive_of_erase hj)
  case h_1 | h_2 | h_3 => cases hstep
  all_goals
    obtain rfl := Option.some.inj hstep
    exact .inl hj

theorem setDispatch_self (h : WorkerHandle n) (i : Fin n) (phase : DispatchPhase) :
    (h.setDispatch i phase).dispatches i = phase := by
  simp [WorkerHandle.setDispatch]

theorem setDispatch_of_ne (h : WorkerHandle n) (phase : DispatchPhase) {j : Fin n} (hji : j ≠ i) :
    (h.setDispatch i phase).dispatches j = h.dispatches j := by
  simp [WorkerHandle.setDispatch, hji]

/-- A step of one round trip leaves the others where they are. -/
theorem dispatchStep_of_ne {h h' : WorkerHandle n} {j : Fin n} (hstep : h.dispatchStep i = some h')
    (hji : j ≠ i) : h'.dispatches j = h.dispatches j := by
  have hadvances : Advances (fun _ => 0) i h h' := dispatchStep_advances hstep
  obtain ⟨phase, hdispatches⟩ := hadvances.dispatches
  rw [hdispatches, Function.update_of_ne hji]

/-! ## Processes -/

/-- The handle says the same of its process as before. -/
def SameFlags (h h' : WorkerHandle n) : Prop :=
  h'.gone = h.gone ∧ h'.exited = h.exited ∧ h'.reaper = h.reaper ∧ h'.writerTx = h.writerTx

theorem SameFlags.refl (h : WorkerHandle n) : SameFlags h h := ⟨rfl, rfl, rfl, rfl⟩

theorem SameFlags.of_dispatchStep {h h' : WorkerHandle n} (hstep : h.dispatchStep i = some h') :
    SameFlags h h' := by
  have hadvances : Advances (fun _ => 0) i h h' := dispatchStep_advances hstep
  have hgone := congrArg WorkerHandle.gone hadvances.frame
  have hexited := congrArg WorkerHandle.exited hadvances.frame
  have hreaper := congrArg WorkerHandle.reaper hadvances.frame
  have hwriter := congrArg WorkerHandle.writerTx hadvances.frame
  exact ⟨hgone, hexited, hreaper, hwriter⟩

/-- What a handle says of its process is true. -/
structure Truthful (h : WorkerHandle n) (shut : Bool) : Prop where
  exited : h.exited = true → h.gone = true
  reaper : h.reaper ≠ .wait → h.gone = true
  writerTx : h.writerTx = false → h.gone = true ∨ shut = true

theorem Truthful.congr {h h' : WorkerHandle n} {shut : Bool} (ht : Truthful h shut)
    (hsame : SameFlags h h') : Truthful h' shut := by
  obtain ⟨hgone, hexited, hreaper, hwriter⟩ := hsame
  refine ⟨?_, ?_, ?_⟩
  · rw [hgone, hexited]
    exact ht.exited
  · rw [hgone, hreaper]
    exact ht.reaper
  · rw [hgone, hwriter]
    exact ht.writerTx

theorem Truthful.initial {shut : Bool} (capacity : Nat) : Truthful (.initial n capacity) shut where
  exited hexited := by cases hexited
  reaper hreaper := absurd rfl hreaper
  writerTx hwriter := by cases hwriter

theorem Truthful.of_dead {h : WorkerHandle n} {shut : Bool} (ht : Truthful h shut)
    (hdead : h.exited = true ∨ h.writerTx = false) : h.gone = true ∨ shut = true :=
  hdead.elim (fun hexited => .inl (ht.exited hexited)) ht.writerTx

theorem SameFlags.of_writerStep {h h' : WorkerHandle n} {lineBytes : WorkerMessage → Nat}
    (hstep : h.writerStep lineBytes = some h') : SameFlags h h' := by
  unfold WorkerHandle.writerStep at hstep
  repeat' split at hstep
  all_goals first
    | contradiction
    | (obtain rfl := Option.some.inj hstep; exact ⟨rfl, rfl, rfl, rfl⟩)

theorem SameFlags.of_readerStep {h h' : WorkerHandle n} (hstep : h.readerStep = some h') :
    SameFlags h h' := by
  unfold WorkerHandle.readerStep at hstep
  repeat' split at hstep
  all_goals first
    | contradiction
    | (obtain rfl := Option.some.inj hstep; exact ⟨rfl, rfl, rfl, rfl⟩)

theorem Truthful.reaperStep {h h' : WorkerHandle n} {shut contended : Bool} (ht : Truthful h shut)
    (hstep : h.reaperStep contended = some h') : h'.gone = h.gone ∧ Truthful h' shut := by
  unfold WorkerHandle.reaperStep at hstep
  split at hstep
  case h_1 =>
    obtain ⟨hgone, heq⟩ := Option.ite_none_right_eq_some.1 hstep
    obtain rfl := Option.some.inj heq
    exact ⟨rfl, fun _ => hgone, fun _ => hgone, ht.writerTx⟩
  case h_2 hreaper =>
    have hgone := ht.reaper (by simp [hreaper])
    obtain rfl := Option.some.inj hstep
    exact ⟨rfl, ht.exited, fun _ => hgone, fun _ => .inl hgone⟩
  case h_3 hreaper =>
    have hgone := ht.reaper (by simp [hreaper])
    obtain rfl := Option.some.inj hstep
    exact ⟨rfl, ht.exited, fun _ => hgone, ht.writerTx⟩
  case h_4 => cases hstep

/-- What the tasks and the process do: a process that is gone stays so, and the handle knows. -/
theorem Truthful.workerStep {h h' : WorkerHandle n} {shut : Bool} {lineBytes : WorkerMessage → Nat}
    {capacity : Nat} {l : WorkerStep n} (ht : Truthful h shut)
    (hstep : workerStep lineBytes capacity h l = some h') :
    (h.gone = true → h'.gone = true) ∧ Truthful h' shut := by
  have hsame : SameFlags h h' → (h.gone = true → h'.gone = true) ∧ Truthful h' shut :=
    fun hflags => ⟨fun hgone => hflags.1.trans hgone, ht.congr hflags⟩
  cases l with
  | call i message =>
    simp only [Impl.workerStep] at hstep
    split at hstep
    · obtain rfl := Option.some.inj hstep
      exact hsame ⟨rfl, rfl, rfl, rfl⟩
    · cases hstep
  | spawn i message =>
    simp only [Impl.workerStep] at hstep
    split at hstep
    · obtain ⟨-, heq⟩ := Option.ite_none_right_eq_some.1 hstep
      obtain rfl := Option.some.inj heq
      exact hsame ⟨rfl, rfl, rfl, rfl⟩
    · cases hstep
  | dispatch i => exact hsame (.of_dispatchStep hstep)
  | writer => exact hsame (.of_writerStep hstep)
  | reader => exact hsame (.of_readerStep hstep)
  | reaper contended =>
    obtain ⟨hgone, htruthful⟩ := ht.reaperStep hstep
    exact ⟨hgone.trans, htruthful⟩
  | emit line =>
    simp only [Impl.workerStep] at hstep
    split at hstep
    · cases hstep
    · obtain rfl := Option.some.inj hstep
      exact hsame ⟨rfl, rfl, rfl, rfl⟩
  | drain bytes =>
    obtain ⟨-, heq⟩ := Option.ite_none_right_eq_some.1 hstep
    obtain rfl := Option.some.inj heq
    exact hsame ⟨rfl, rfl, rfl, rfl⟩
  | closeStdout | closeStdin =>
    obtain rfl := Option.some.inj hstep
    exact hsame ⟨rfl, rfl, rfl, rfl⟩
  | exit =>
    obtain rfl := Option.some.inj hstep
    exact ⟨fun _ => rfl, fun _ => rfl, fun _ => rfl, fun _ => .inl rfl⟩

end Luchta.Proof.Manager
