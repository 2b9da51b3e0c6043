import Luchta.Framework.Mutex
import Luchta.Framework.Progress
import Luchta.Impl.RemoteOperation

/-!
# What remote operations do to the remote, and to each other

* `Stepped`, `step_cases`: what a step of a thread is.
* `PermitsInv`: every thread that holds a permit is in the lists of its limiter, and no thread waits for
  rclone, as who holds the permit of an operation finds one free.
* `permits_held`: both limits are kept, and every operation that is begun comes to its end.
-/

namespace Luchta.Proof.Remote

open Luchta.Framework Luchta.Impl
open Luchta.Framework.Limiter (Standing)

variable {n concurrency threshold limit : Nat} {s s' t : RemoteOperations n} {i : Fin n}

/-- The thread wants, or has, the permit of an operation. -/
def standing : OperationPhase → Standing
  | .waiting => .seeking
  | .checkDisabled | .checkCancelled | .readDeadline | .operation | .waitingRclone | .calling | .called
  | .returned _ | .refused => .holding
  | _ => .out

/-- The thread wants, or has, the permit of an rclone call. -/
def callStanding : OperationPhase → Standing
  | .waitingRclone => .seeking
  | .calling => .holding
  | _ => .out

/-! ## Steps -/

/-- A step of a thread that leaves the limiters alone, by the phases it takes the thread from and to. -/
inductive Moved (s : RemoteOperations n) : OperationPhase → OperationPhase → Prop
  | disabled : Moved s .checkDisabled (if s.disabled then .refused else .checkCancelled)
  | cancelled : Moved s .checkCancelled (if s.cancelled then .refused else .readDeadline)
  | late : Moved s .readDeadline .refused
  | failed (err : RcloneError) : Moved s .operation (.returned (some err))
  | ended (result : Option RcloneError) : Moved s .called (.returned result)

inductive Stepped (s : RemoteOperations n) : OperationLabel n → RemoteOperations n → Prop
  | begin {i : Fin n} (hi : s.threads i = .idle) : Stepped s (.begin i) { s.setThread i
      (if s.limiter.inUse < s.limiter.limit then .checkDisabled else .waiting) with
      limiter := s.limiter.enter i }
  | wake {i : Fin n} {limiter} (hl : s.limiter.wake i = some limiter) :
    Stepped s (.wake i) { s with limiter := limiter }
  | wakeRclone {i : Fin n} {rclone} (hl : s.rclone.wake i = some rclone) :
    Stepped s (.wakeRclone i) { s with rclone := rclone }
  | retry {i : Fin n} {limiter} (hi : s.threads i = .waiting) (hl : s.limiter.retry i = some limiter) :
    Stepped s (.operation i) { s.setThread i
      (if s.limiter.inUse < s.limiter.limit then .checkDisabled else .waiting) with limiter := limiter }
  | call {i : Fin n} (hi : s.threads i = .operation) : Stepped s (.operation i) { s.setThread i
      (if s.rclone.inUse < s.rclone.limit then .calling else .waitingRclone) with
      rclone := s.rclone.enter i }
  | retryRclone {i : Fin n} {rclone} (hi : s.threads i = .waitingRclone)
    (hl : s.rclone.retry i = some rclone) : Stepped s (.operation i) { s.setThread i
      (if s.rclone.inUse < s.rclone.limit then .calling else .waitingRclone) with rclone := rclone }
  | move {i : Fin n} {l : OperationLabel n} {phase : OperationPhase} (hm : Moved s (s.threads i) phase) :
    Stepped s l (s.setThread i phase)
  | start {i : Fin n} {timeout : Nat} (hi : s.threads i = .readDeadline) :
    Stepped s (.deadline i timeout) { s.setThread i .operation with started := s.started + 1 }
  | answered {i : Fin n} {notified} {rclone} (hi : s.threads i = .calling)
    (hl : s.rclone.leave i notified = some rclone) :
    Stepped s (.release i notified) { s.setThread i .called with rclone := rclone }
  | leave {i : Fin n} {notified} {limiter} (hi : s.threads i = .returned none ∨ s.threads i = .refused)
    (hl : s.limiter.leave i notified = some limiter) :
    Stepped s (.release i notified) { s.setThread i .idle with limiter := limiter }
  | fail {i : Fin n} {notified} {limiter} {err : RcloneError} (hi : s.threads i = .returned (some err))
    (hl : s.limiter.leave i notified = some limiter) :
    Stepped s (.release i notified) { s.setThread i (.record err) with limiter := limiter }
  | ignore {i : Fin n} {err : RcloneError} (hi : s.threads i = .record err) (herr : err.ignored = true) :
    Stepped s (.record i) { s.setThread i .idle with evidence := s.evidence ++ [.error err] }
  | timeout {i : Fin n} {err : RcloneError} (hi : s.threads i = .record err) (herr : err.isTimeout = true) :
    Stepped s (.record i) { s.recordTimeout i err.disableReason with
      evidence := s.evidence ++ [.error err] }
  | health {i : Fin n} {err : RcloneError} (hi : s.threads i = .record err) (herr : err.ignored = false)
    (htime : err.isTimeout = false) : Stepped s (.record i) { s.setThread i (.disable err.disableReason) with
      evidence := s.evidence ++ [.error err] }
  | flush {i : Fin n} (hi : s.threads i = .flushTimedOut) :
    Stepped s (.record i) { s.setThread i .countTimedOut with disableReason := some flushTimeoutReason }
  | timedOut {i : Fin n} (hi : s.threads i = .countTimedOut) : Stepped s (.record i)
    { s.recordTimeout i flushTimeoutReason with evidence := s.evidence ++ [.flushTimeout] }
  | disable {i : Fin n} {reason : String} (hi : s.threads i = .disable reason) :
    Stepped s (.record i) { s.setThread i (.setReason reason) with disabled := true }
  | setReason {i : Fin n} {reason : String} (hi : s.threads i = .setReason reason) :
    Stepped s (.record i) { s.setThread i (.warn reason) with disableReason := some reason }
  | warn {i : Fin n} {reason : String} (hi : s.threads i = .warn reason) :
    Stepped s (.record i) { s.setThread i .idle with
      warned := true
      printed := if s.warned then s.printed else s.printed ++ [reason] }
  | cancelTimedOut {i : Fin n} (hi : s.threads i = .idle) :
    Stepped s (.cancelTimedOut i) { s.setThread i .flushTimedOut with cancelled := true }
  | discard : Stepped s .discard { s with cancelled := true }

theorem step_cases {l : OperationLabel n} (h : s.step l = some s') : Stepped s l s' := by
  cases l with
  | begin i =>
    simp only [RemoteOperations.step, RemoteOperations.begin] at h
    split at h
    · obtain rfl := Option.some.inj h
      exact .begin ‹_›
    · contradiction
  | wake i =>
    obtain ⟨limiter, hl, rfl⟩ := Option.map_eq_some_iff.1 h
    exact .wake hl
  | wakeRclone i =>
    obtain ⟨rclone, hl, rfl⟩ := Option.map_eq_some_iff.1 h
    exact .wakeRclone hl
  | operation i =>
    simp only [RemoteOperations.step, RemoteOperations.operationStep] at h
    split at h
    · obtain ⟨limiter, hl, rfl⟩ := Option.map_eq_some_iff.1 h
      exact .retry ‹_› hl
    · rename_i hi
      obtain rfl := Option.some.inj h
      exact .move (hi ▸ .disabled)
    · rename_i hi
      obtain rfl := Option.some.inj h
      exact .move (hi ▸ .cancelled)
    · obtain rfl := Option.some.inj h
      exact .call ‹_›
    · obtain ⟨rclone, hl, rfl⟩ := Option.map_eq_some_iff.1 h
      exact .retryRclone ‹_› hl
    · contradiction
  | deadline i timeout =>
    simp only [RemoteOperations.step, RemoteOperations.deadline] at h
    split at h
    · rename_i hi
      split at h
      · obtain rfl := Option.some.inj h
        exact .move (hi ▸ .late)
      · obtain rfl := Option.some.inj h
        exact .start hi
    · contradiction
  | finish i result =>
    simp only [RemoteOperations.step, RemoteOperations.finish] at h
    split at h
    · rename_i hi
      obtain rfl := Option.some.inj h
      exact .move (hi ▸ .failed _)
    · rename_i hi
      obtain rfl := Option.some.inj h
      exact .move (hi ▸ .ended _)
    · contradiction
  | release i notified =>
    simp only [RemoteOperations.step, RemoteOperations.release] at h
    split at h
    · obtain ⟨rclone, hl, rfl⟩ := Option.map_eq_some_iff.1 h
      exact .answered ‹_› hl
    · obtain ⟨limiter, hl, rfl⟩ := Option.map_eq_some_iff.1 h
      exact .leave (.inl ‹_›) hl
    · obtain ⟨limiter, hl, rfl⟩ := Option.map_eq_some_iff.1 h
      exact .leave (.inr ‹_›) hl
    · obtain ⟨limiter, hl, rfl⟩ := Option.map_eq_some_iff.1 h
      exact .fail ‹_› hl
    · contradiction
  | record i =>
    simp only [RemoteOperations.step, RemoteOperations.recordStep] at h
    split at h
    · rename_i err hi
      split at h
      · obtain rfl := Option.some.inj h
        exact .ignore hi ‹_›
      · split at h
        · obtain rfl := Option.some.inj h
          exact .timeout hi ‹_›
        · obtain rfl := Option.some.inj h
          exact .health hi (Bool.eq_false_iff.2 ‹_›) (Bool.eq_false_iff.2 ‹_›)
    · obtain rfl := Option.some.inj h
      exact .flush ‹_›
    · obtain rfl := Option.some.inj h
      exact .timedOut ‹_›
    · obtain rfl := Option.some.inj h
      exact .disable ‹_›
    · obtain rfl := Option.some.inj h
      exact .setReason ‹_›
    · obtain rfl := Option.some.inj h
      exact .warn ‹_›
    · contradiction
  | cancelTimedOut i =>
    simp only [RemoteOperations.step, RemoteOperations.cancelTimedOut] at h
    split at h
    · obtain rfl := Option.some.inj h
      exact .cancelTimedOut ‹_›
    · contradiction
  | discard =>
    obtain rfl := Option.some.inj h
    exact .discard

/-! ## The permits -/

structure PermitsInv (limit : Nat) (s : RemoteOperations n) : Prop where
  limiter : s.limiter.Inv limit
  rclone : s.rclone.Inv limit
  operations : s.limiter.Occupies fun i => standing (s.threads i)
  calls : s.rclone.Occupies fun i => callStanding (s.threads i)
  direct : ∀ i, s.threads i ≠ .waitingRclone

theorem update_phase {α : Type*} (f : OperationPhase → α) (x : Fin n → OperationPhase) (i : Fin n)
    (phase : OperationPhase) :
    (fun j => f (Function.update x i phase j)) = Function.update (fun j => f (x j)) i (f phase) := by
  funext j
  by_cases hj : j = i <;> simp [hj]

/-- Who holds the permit of an operation, and calls rclone, finds a permit free: all calls under way are
of other operations. -/
theorem PermitsInv.free (h : PermitsInv limit s) (hi : s.threads i = .operation) :
    s.rclone.inUse < s.rclone.limit := by
  have hsub : (i :: s.rclone.admitted).Subperm s.limiter.admitted := by
    refine List.subperm_of_subset ?_ fun j hj => ?_
    · refine List.nodup_cons.2 ⟨fun hmem => ?_, h.calls.holding.1⟩
      have hcalling := (h.calls.holding.2 i).1 hmem
      simp [hi, callStanding] at hcalling
    · refine (h.operations.holding.2 j).2 ?_
      rcases List.mem_cons.1 hj with rfl | hj
      · simp [hi, standing]
      · have hcalling := (h.calls.holding.2 j).1 hj
        cases hphase : s.threads j <;> simp [hphase, callStanding, standing] at hcalling ⊢
  have hlength := hsub.length_le
  have huse := h.limiter.inUse
  have hle := h.limiter.le
  rw [h.rclone.limit_eq, h.rclone.inUse]
  rw [List.length_cons] at hlength
  omega

/-- A step that leaves the limiters alone, and its thread where it stands. -/
theorem PermitsInv.move {phase : OperationPhase} (h : PermitsInv limit s)
    (hlimiter : s'.limiter = s.limiter) (hrclone : s'.rclone = s.rclone)
    (hthreads : s'.threads = Function.update s.threads i phase)
    (hstanding : standing phase = standing (s.threads i))
    (hcall : callStanding phase = callStanding (s.threads i)) (hphase : phase ≠ .waitingRclone) :
    PermitsInv limit s' := by
  refine ⟨hlimiter ▸ h.limiter, hrclone ▸ h.rclone, ?_, ?_, ?_⟩
  · rw [hlimiter, hthreads, update_phase, hstanding, Function.update_eq_self_iff.2 rfl]
    exact h.operations
  · rw [hrclone, hthreads, update_phase, hcall, Function.update_eq_self_iff.2 rfl]
    exact h.calls
  · rw [hthreads]
    exact forall_update (· ≠ OperationPhase.waitingRclone) hphase fun j _ => h.direct j

/-- A step of the operation limiter. -/
theorem PermitsInv.pass {phase : OperationPhase} (h : PermitsInv limit s) (hrclone : s'.rclone = s.rclone)
    (hthreads : s'.threads = Function.update s.threads i phase) (hlimiter : s'.limiter.Inv limit)
    (hoccupies : s'.limiter.Occupies (Function.update (fun j => standing (s.threads j)) i (standing phase)))
    (hcall : callStanding phase = callStanding (s.threads i)) (hphase : phase ≠ .waitingRclone) :
    PermitsInv limit s' := by
  refine ⟨hlimiter, hrclone ▸ h.rclone, ?_, ?_, ?_⟩
  · rwa [hthreads, update_phase]
  · rw [hrclone, hthreads, update_phase, hcall, Function.update_eq_self_iff.2 rfl]
    exact h.calls
  · rw [hthreads]
    exact forall_update (· ≠ OperationPhase.waitingRclone) hphase fun j _ => h.direct j

/-- A step of the limiter of rclone calls. -/
theorem PermitsInv.passRclone {phase : OperationPhase} (h : PermitsInv limit s)
    (hlimiter : s'.limiter = s.limiter) (hthreads : s'.threads = Function.update s.threads i phase)
    (hrclone : s'.rclone.Inv limit)
    (hoccupies : s'.rclone.Occupies
      (Function.update (fun j => callStanding (s.threads j)) i (callStanding phase)))
    (hstanding : standing phase = standing (s.threads i)) (hphase : phase ≠ .waitingRclone) :
    PermitsInv limit s' := by
  refine ⟨hlimiter ▸ h.limiter, hrclone, ?_, ?_, ?_⟩
  · rw [hlimiter, hthreads, update_phase, hstanding, Function.update_eq_self_iff.2 rfl]
    exact h.operations
  · rwa [hthreads, update_phase]
  · rw [hthreads]
    exact forall_update (· ≠ OperationPhase.waitingRclone) hphase fun j _ => h.direct j

/-- The phase that a look at the count of operations leads to. -/
theorem standing_verdict (s : RemoteOperations n) :
    standing (if s.limiter.inUse < s.limiter.limit then .checkDisabled else .waiting) = s.limiter.verdict := by
  unfold Limiter.verdict
  split <;> rfl

theorem PermitsInv.step {l : OperationLabel n} (h : PermitsInv limit s) (hs : s.step l = some s') :
    PermitsInv limit s' := by
  cases step_cases hs with
  | @begin i hi =>
    refine h.pass (i := i) rfl rfl (h.limiter.enter i) ?_ ?_ ?_
    · rw [standing_verdict]
      exact h.operations.enter (by simp [hi, standing])
    · split <;> simp [hi, callStanding]
    · split <;> simp
  | @wake i limiter hl => exact ⟨h.limiter.wake hl, h.rclone, h.operations.wake hl, h.calls, h.direct⟩
  | @wakeRclone i rclone hl => exact ⟨h.limiter, h.rclone.wake hl, h.operations, h.calls.wake hl, h.direct⟩
  | @retry i limiter hi hl =>
    refine h.pass (i := i) rfl rfl (h.limiter.retry hl) ?_ ?_ ?_
    · rw [standing_verdict]
      exact h.operations.retry hl
    · split <;> simp [hi, callStanding]
    · split <;> simp
  | @call i hi =>
    have hfree := h.free hi
    rw [if_pos hfree]
    refine h.passRclone (i := i) rfl rfl (h.rclone.enter i) ?_ (by simp [hi, standing]) (by simp)
    have henter := h.calls.enter (i := i) (by simp [hi, callStanding])
    rwa [Limiter.verdict, if_pos hfree] at henter
  | @retryRclone i rclone hi hl => exact absurd hi (h.direct i)
  | @move i l phase hm =>
    cases hphase : s.threads i <;> rw [hphase] at hm <;> cases hm
    all_goals refine h.move (i := i) rfl rfl rfl ?_ ?_ ?_
    all_goals first
      | split <;> simp [hphase, standing, callStanding]
      | simp [hphase, standing, callStanding]
  | @start i timeout hi =>
    exact h.move (i := i) rfl rfl rfl (by simp [hi, standing]) (by simp [hi, callStanding]) (by simp)
  | @answered i notified rclone hi hl =>
    exact h.passRclone (i := i) rfl rfl (h.rclone.leave hl) (h.calls.leave hl) (by simp [hi, standing])
      (by simp)
  | @leave i notified limiter hi hl =>
    refine h.pass (i := i) rfl rfl (h.limiter.leave hl) (h.operations.leave hl) ?_ (by simp)
    rcases hi with hi | hi <;> simp [hi, callStanding]
  | @fail i notified limiter err hi hl =>
    exact h.pass (i := i) rfl rfl (h.limiter.leave hl) (h.operations.leave hl) (by simp [hi, callStanding])
      (by simp)
  | @timeout i err hi herr =>
    refine h.move (i := i) rfl rfl rfl ?_ ?_ ?_
    all_goals split <;> simp [hi, standing, callStanding]
  | @timedOut i hi =>
    refine h.move (i := i) rfl rfl rfl ?_ ?_ ?_
    all_goals split <;> simp [hi, standing, callStanding]
  | @ignore i err hi | @health i err hi | @flush i hi | @disable i reason hi | @setReason i reason hi
  | @warn i reason hi | @cancelTimedOut i hi =>
    exact h.move (i := i) rfl rfl rfl (by simp [hi, standing]) (by simp [hi, callStanding]) (by simp)
  | discard => exact ⟨h.limiter, h.rclone, h.operations, h.calls, h.direct⟩

theorem PermitsInv.of_reachable (h : Reachable (remoteOperations n concurrency threshold) s) :
    PermitsInv (max concurrency 1) s := by
  refine h.invariant (I := PermitsInv (max concurrency 1)) ?_ fun _ _ _ _ hinv _ hs => hinv.step hs
  rintro _ rfl
  exact ⟨.new _, .new _, .new _, .new _, by simp [RemoteOperations.new]⟩

/-! ## The end of every operation -/

/-- The steps of operations that have begun. -/
def Ongoing : OperationLabel n → Prop
  | .operation _ | .deadline _ _ | .finish _ _ | .release _ _ | .record _ => True
  | _ => False

/-- What a thread still has to do. -/
def phaseWeight : OperationPhase → Nat
  | .idle => 0
  | .warn _ => 1
  | .setReason _ => 2
  | .disable _ => 3
  | .countTimedOut => 4
  | .record _ | .flushTimedOut => 5
  | .returned _ | .refused => 6
  | .called => 7
  | .calling => 8
  | .waitingRclone => 9
  | .operation => 12
  | .readDeadline => 13
  | .checkCancelled => 14
  | .checkDisabled => 15
  | .waiting => 16

def operationsLoad (s : RemoteOperations n) : Nat := ∑ i, phaseWeight (s.threads i) + s.limiter.load + s.rclone.load

theorem load_lt {phase : OperationPhase} {k : Nat} (hthreads : s'.threads = Function.update s.threads i phase)
    (hload : s'.limiter.load + s'.rclone.load ≤ s.limiter.load + s.rclone.load + k)
    (hweight : phaseWeight phase + k < phaseWeight (s.threads i)) : operationsLoad s' < operationsLoad s := by
  have hsum := sum_update phaseWeight s.threads i phase
  unfold operationsLoad
  rw [hthreads]
  omega

/-- A look at the count again makes the limiter's load fall, and the thread's not grow. -/
theorem load_lt_of_retry {phase : OperationPhase} (hthreads : s'.threads = Function.update s.threads i phase)
    (hload : s'.limiter.load + s'.rclone.load < s.limiter.load + s.rclone.load)
    (hweight : phaseWeight phase ≤ phaseWeight (s.threads i)) : operationsLoad s' < operationsLoad s := by
  have hsum := sum_update phaseWeight s.threads i phase
  unfold operationsLoad
  rw [hthreads]
  omega

theorem load_step {l : OperationLabel n} (hl : Ongoing l) (hs : s.step l = some s') : operationsLoad s' < operationsLoad s := by
  cases step_cases hs with
  | begin | wake | wakeRclone | cancelTimedOut | discard => exact hl.elim
  | @retry i limiter hi hretry =>
    have hlimiter := Limiter.load_retry hretry
    refine load_lt_of_retry (i := i) rfl ?_ ?_
    · exact Nat.add_lt_add_right hlimiter _
    · split <;> simp [hi, phaseWeight]
  | @retryRclone i rclone hi hretry =>
    have hrclone := Limiter.load_retry hretry
    refine load_lt_of_retry (i := i) rfl ?_ ?_
    · exact Nat.add_lt_add_left hrclone _
    · split <;> simp [hi, phaseWeight]
  | @call i hi =>
    refine load_lt (i := i) (k := 2) rfl ?_ ?_
    · show s.limiter.load + (s.rclone.enter i).load ≤ _
      rw [Limiter.load_enter, Nat.add_assoc]
    · split <;> simp [hi, phaseWeight]
  | @move i l phase hm =>
    cases hphase : s.threads i <;> rw [hphase] at hm <;> cases hm
    all_goals refine load_lt (i := i) (k := 0) rfl le_rfl ?_
    all_goals first
      | split <;> simp [hphase, phaseWeight]
      | simp [hphase, phaseWeight]
  | @answered i notified rclone hi hleave =>
    have hrclone := Limiter.load_leave hleave
    exact load_lt (i := i) (k := 0) rfl (Nat.add_le_add_left hrclone.le _) (by simp [hi, phaseWeight])
  | @leave i notified limiter hi hleave =>
    have hlimiter := Limiter.load_leave hleave
    refine load_lt (i := i) (k := 0) rfl (Nat.add_le_add_right hlimiter.le _) ?_
    rcases hi with hi | hi <;> simp [hi, phaseWeight]
  | @fail i notified limiter err hi hleave =>
    have hlimiter := Limiter.load_leave hleave
    exact load_lt (i := i) (k := 0) rfl (Nat.add_le_add_right hlimiter.le _) (by simp [hi, phaseWeight])
  | @timeout i err hi herr =>
    refine load_lt (i := i) (k := 0) rfl le_rfl ?_
    split <;> simp [hi, phaseWeight]
  | @timedOut i hi =>
    refine load_lt (i := i) (k := 0) rfl le_rfl ?_
    split <;> simp [hi, phaseWeight]
  | @start i timeout hi | @ignore i err hi | @health i err hi | @flush i hi | @disable i reason hi
  | @setReason i reason hi | @warn i reason hi =>
    exact load_lt (i := i) (k := 0) rfl le_rfl (by simp [hi, phaseWeight])

/-- A thread that is neither idle nor waiting for the permit of an operation can go on. -/
theorem PermitsInv.ongoing (h : PermitsInv limit s) (hidle : s.threads i ≠ .idle)
    (hwaiting : s.threads i ≠ .waiting) : ∃ l s', Ongoing l ∧ s.step l = some s' := by
  have hholding := h.operations.holding.2 i
  have hcalling := h.calls.holding.2 i
  cases hi : s.threads i with
  | idle => exact absurd hi hidle
  | waiting => exact absurd hi hwaiting
  | waitingRclone => exact absurd hi (h.direct i)
  | checkDisabled | checkCancelled | operation =>
    exact ⟨.operation i, _, trivial, by simp only [RemoteOperations.step, RemoteOperations.operationStep, hi]; rfl⟩
  | readDeadline =>
    exact ⟨.deadline i 0, _, trivial, by simp only [RemoteOperations.step, RemoteOperations.deadline, hi]; rfl⟩
  | calling =>
    obtain ⟨notified, rclone, hl⟩ := Limiter.exists_leave (hcalling.2 (by simp [hi, callStanding]))
    exact ⟨.release i notified, _, trivial, by
      simp only [RemoteOperations.step, RemoteOperations.release, hi, hl, Option.map_some]; rfl⟩
  | called =>
    exact ⟨.finish i none, _, trivial, by simp only [RemoteOperations.step, RemoteOperations.finish, hi]; rfl⟩
  | returned result =>
    obtain ⟨notified, limiter, hl⟩ := Limiter.exists_leave (hholding.2 (by simp [hi, standing]))
    cases result with
    | none | some err =>
      exact ⟨.release i notified, _, trivial, by
        simp only [RemoteOperations.step, RemoteOperations.release, hi, hl, Option.map_some]; rfl⟩
  | refused =>
    obtain ⟨notified, limiter, hl⟩ := Limiter.exists_leave (hholding.2 (by simp [hi, standing]))
    exact ⟨.release i notified, _, trivial, by
      simp only [RemoteOperations.step, RemoteOperations.release, hi, hl, Option.map_some]; rfl⟩
  | record err =>
    refine ⟨.record i, ?_⟩
    simp only [RemoteOperations.step, RemoteOperations.recordStep, hi]
    split
    · exact ⟨_, trivial, rfl⟩
    · split
      · exact ⟨_, trivial, rfl⟩
      · exact ⟨_, trivial, rfl⟩
  | disable reason | setReason reason | warn reason | flushTimedOut | countTimedOut =>
    exact ⟨.record i, _, trivial, by simp only [RemoteOperations.step, RemoteOperations.recordStep, hi]; rfl⟩

/-- Where no operation can go on, none is under way. -/
theorem PermitsInv.idle_of_quiet (h : PermitsInv limit s) (hlimit : 0 < limit)
    (hquiet : ∀ l, Ongoing l → s.step l = none) (i : Fin n) : s.threads i = .idle := by
  have hstuck : ∀ j, s.threads j = .idle ∨ s.threads j = .waiting := fun j => by
    by_contra hne
    obtain ⟨hidle, hwaiting⟩ := not_or.1 hne
    obtain ⟨l, t, hl, hstep⟩ := h.ongoing hidle hwaiting
    rw [hquiet l hl] at hstep
    cases hstep
  have hadmitted : s.limiter.admitted = [] := by
    refine List.eq_nil_iff_forall_not_mem.2 fun j hj => ?_
    have hholding := (h.operations.holding.2 j).1 hj
    rcases hstuck j with hphase | hphase <;> simp [hphase, standing] at hholding
  -- who has been woken can look again
  have hwoken : s.limiter.woken = [] := by
    refine List.eq_nil_iff_forall_not_mem.2 fun j hj => ?_
    have hseeking := (h.operations.seeking.2 j).1 (List.mem_append_right _ hj)
    rcases hstuck j with hphase | hphase
    · simp [hphase, standing] at hseeking
    · have hnone := hquiet (.operation j) trivial
      have hretry : s.limiter.retry j = some _ := if_pos hj
      simp [RemoteOperations.step, RemoteOperations.operationStep, hphase, hretry] at hnone
  have hwaiting := h.limiter.waiting_of_rest hlimit hadmitted hwoken
  refine (hstuck i).resolve_right fun hphase => ?_
  have hmem := (h.operations.seeking.2 i).2 (by simp [hphase, standing])
  simp [hwaiting, hwoken] at hmem

/-- At no time are more operations under way than the limit says; none of them waits for rclone, which has
the same limit; and every operation that has begun comes to its end, whoever is woken, if the calls do. -/
theorem permits_held (h : Reachable (remoteOperations n concurrency threshold) s) :
    (Finset.univ.filter fun i => standing (s.threads i) = .holding).card ≤ max concurrency 1 ∧
    (∀ i, s.threads i ≠ .waitingRclone) ∧
    Settles (remoteOperations n concurrency threshold) (fun _ _ => True) Ongoing
      (fun s => ∀ i, s.threads i = .idle) s := by
  have hinv : PermitsInv (max concurrency 1) s := .of_reachable h
  refine ⟨?_, hinv.direct, ?_⟩
  · have hsub : (Finset.univ.filter fun i => standing (s.threads i) = .holding) ⊆ s.limiter.admitted.toFinset :=
      fun i hi => List.mem_toFinset.2 ((hinv.operations.holding.2 i).2 (Finset.mem_filter.1 hi).2)
    calc (Finset.univ.filter fun i => standing (s.threads i) = .holding).card
      _ ≤ s.limiter.admitted.toFinset.card := Finset.card_le_card hsub
      _ ≤ s.limiter.admitted.length := s.limiter.admitted.toFinset_card_le
      _ ≤ max concurrency 1 := hinv.limiter.inUse ▸ hinv.limiter.le
  · refine Settles.of_measure (I := PermitsInv (max concurrency 1)) operationsLoad
      (fun s l t hs hl _ hstep => ⟨hs.step hstep, load_step hl hstep⟩) (fun s hs hquiet => ?_) hinv
    exact hs.idle_of_quiet (by omega) hquiet

/-- Two threads, and one operation at a time. -/
def narrow : System (RemoteOperations 2) (OperationLabel 2) := remoteOperations 2 1 1

theorem narrow_reach {α : Type*} (ls : List (OperationLabel 2)) (f : RemoteOperations 2 → α) (a : α)
    (h : (narrow.run (fun _ _ => True) (.new 2 1 1) ls).map f = some a) : ∃ s, Reachable narrow s ∧ f s = a := by
  obtain ⟨s, hs, hf⟩ := Option.map_eq_some_iff.1 h
  exact ⟨s, Reach.run (.init rfl) hs, hf⟩

/-- One thread calls rclone, the other waits. -/
theorem permits_held_narrow : ∃ s, Reachable narrow s ∧ (s.threads 0, s.threads 1) = (.calling, .waiting) ∧
    (Finset.univ.filter fun i => standing (s.threads i) = .holding).card ≤ 1 := by
  obtain ⟨s, hreach, hthreads⟩ := narrow_reach
    [.begin 0, .begin 1, .operation 0, .operation 0, .deadline 0 30, .operation 0]
    (fun s => (s.threads 0, s.threads 1)) (.calling, .waiting) (by decide)
  exact ⟨s, hreach, hthreads, (permits_held hreach).1⟩

end Luchta.Proof.Remote
