import Luchta.Proof.Remote.Operations

/-!
# When the remote is given up

* `Trips`: what was brought up is enough to disable the remote.
* `BreakerInv.step`: the flags say what was brought up, apart from what a thread is about to set.
* `disabled_iff`: the remote is disabled for this reason and no other, and it is said once.
* `started_after_disable`: afterwards no more operations start than were let in before.
-/

namespace Luchta.Proof.Remote

open Luchta.Framework Luchta.Impl

variable {n concurrency threshold limit : Nat} {s s' t : RemoteOperations n} {i : Fin n}
  {evidence : List Evidence}

namespace Breaker

def timeout : Evidence → Bool
  | .error err => err.isTimeout
  | .flushTimeout => true

/-- An error that says that the remote is not healthy. -/
def unhealthy : Evidence → Bool
  | .error err => !err.ignored && !err.isTimeout
  | .flushTimeout => false

def reason : Evidence → String
  | .error err => err.disableReason
  | .flushTimeout => flushTimeoutReason

end Breaker

open Breaker

/-- One unhealthy answer is enough, or as many timeouts as the threshold says. -/
def Trips (threshold : Nat) (evidence : List Evidence) : Prop :=
  (∃ e ∈ evidence, unhealthy e = true) ∨ threshold ≤ evidence.countP timeout

theorem Trips.append (h : Trips threshold evidence) (e : Evidence) : Trips threshold (evidence ++ [e]) := by
  rcases h with ⟨e', he', hunhealthy⟩ | hle
  · exact .inl ⟨e', List.mem_append_left _ he', hunhealthy⟩
  · exact .inr (hle.trans (List.countP_append ▸ Nat.le_add_right _ _))

/-- What does not count does not trip. -/
theorem trips_append {e : Evidence} (hu : unhealthy e = false) (ht : timeout e = false) :
    Trips threshold (evidence ++ [e]) ↔ Trips threshold evidence := by
  refine ⟨?_, fun h => h.append e⟩
  rintro (⟨e', he', hunhealthy⟩ | hle)
  · rcases List.mem_append.1 he' with he' | he'
    · exact .inl ⟨e', he', hunhealthy⟩
    · rw [List.mem_singleton.1 he', hu] at hunhealthy
      cases hunhealthy
  · rw [List.countP_append, List.countP_singleton, ht] at hle
    exact .inr hle

theorem trips_append_timeout {e : Evidence} (hu : unhealthy e = false) (ht : timeout e = true) :
    Trips threshold (evidence ++ [e]) ↔ Trips threshold evidence ∨ threshold ≤ evidence.countP timeout + 1 := by
  constructor
  · rintro (⟨e', he', hunhealthy⟩ | hle)
    · rcases List.mem_append.1 he' with he' | he'
      · exact .inl (.inl ⟨e', he', hunhealthy⟩)
      · rw [List.mem_singleton.1 he', hu] at hunhealthy
        cases hunhealthy
    · rw [List.countP_append, List.countP_singleton, ht] at hle
      exact .inr hle
  · rintro (h | hle)
    · exact h.append e
    · refine .inr ?_
      rw [List.countP_append, List.countP_singleton, ht]
      exact hle

theorem ignored_of_isTimeout {err : RcloneError} (h : err.isTimeout = true) : err.ignored = false := by
  cases err <;> first | rfl | simp [RcloneError.isTimeout] at h

/-- The thread is between the decision to disable the remote and its end. -/
def disabling : OperationPhase → Option String
  | .disable reason | .setReason reason | .warn reason => some reason
  | _ => none

/-- The thread has disabled the remote and not said so yet. -/
def unsaid : OperationPhase → Bool
  | .setReason _ | .warn _ => true
  | _ => false

/-- What a thread disables the remote for has been brought up, and is enough. -/
def Reasoned (threshold : Nat) (evidence : List Evidence) (phase : OperationPhase) : Prop :=
  ∀ r, disabling phase = some r → Trips threshold evidence ∧ ∃ e ∈ evidence, reason e = r

structure BreakerInv (threshold : Nat) (s : RemoteOperations n) : Prop where
  threshold_eq : s.timeoutDisableThreshold = threshold
  timeouts : s.timeoutCount = s.evidence.countP timeout
  sound : s.disabled = true → Trips threshold s.evidence
  complete : Trips threshold s.evidence → s.disabled = true ∨ ∃ i r, s.threads i = .disable r
  reasons : ∀ i, Reasoned threshold s.evidence (s.threads i)
  unsaid : ∀ i, unsaid (s.threads i) = true → s.disabled = true
  said : s.disabled = true → s.warned = true ∨ ∃ i, Remote.unsaid (s.threads i) = true
  warned : s.warned = true → s.disabled = true
  printed : s.printed.length = if s.warned then 1 else 0
  named : ∀ r ∈ s.printed, ∃ e ∈ s.evidence, reason e = r

theorem unsaid_of_disabling {phase : OperationPhase} (h : disabling phase = none) : Remote.unsaid phase = false := by
  cases phase <;> first | rfl | simp [disabling] at h

section Update

variable {x : Fin n → OperationPhase} {phase : OperationPhase} {P : OperationPhase → Prop}

theorem exists_update (h : ∃ j, P (x j)) (hi : ¬ P (x i)) : ∃ j, P (Function.update x i phase j) := by
  obtain ⟨j, hj⟩ := h
  have hne : j ≠ i := fun heq => hi (heq ▸ hj)
  exact ⟨j, by rwa [Function.update_of_ne hne]⟩

theorem exists_update_self (h : P phase) : ∃ j, P (Function.update x i phase j) :=
  ⟨i, by rwa [Function.update_self]⟩

end Update

/-- A step that neither brings anything up nor has to do with disabling. -/
theorem BreakerInv.inert {limiter rclone : Limiter (Fin n)} {cancelled : Bool} {disableReason : Option String}
    {started : Nat} {phase : OperationPhase} (h : BreakerInv threshold s) (hphase : disabling phase = none)
    (hi : disabling (s.threads i) = none) :
    BreakerInv threshold { s.setThread i phase with
      limiter := limiter, rclone := rclone, cancelled := cancelled
      disableReason := disableReason, started := started } := by
  refine ⟨h.threshold_eq, h.timeouts, h.sound, fun ht => (h.complete ht).imp_right ?_, ?_, ?_,
    fun hd => (h.said hd).imp_right ?_, h.warned, h.printed, h.named⟩
  · rintro ⟨j, r, hj⟩
    refine exists_update (P := fun phase => ∃ r, phase = .disable r) ⟨j, r, hj⟩ ?_
    rintro ⟨r, hr⟩
    simp [hr, disabling] at hi
  · refine forall_update (Reasoned threshold _) (fun r hr => ?_) fun j _ => h.reasons j
    rw [hphase] at hr
    cases hr
  · refine forall_update (fun phase => Remote.unsaid phase = true → _) (fun hu => ?_) fun j _ => h.unsaid j
    rw [unsaid_of_disabling hphase] at hu
    cases hu
  · intro hsome
    exact exists_update (P := fun phase => Remote.unsaid phase = true) hsome (by simp [unsaid_of_disabling hi])

/-- An ignored answer is brought up. -/
theorem BreakerInv.ignore {e : Evidence} (h : BreakerInv threshold s) (hu : unhealthy e = false)
    (ht : timeout e = false) : BreakerInv threshold { s with evidence := s.evidence ++ [e] } := by
  have hmem : ∀ {r}, (∃ e' ∈ s.evidence, reason e' = r) → ∃ e' ∈ s.evidence ++ [e], reason e' = r := by
    rintro r ⟨e', he', hr⟩
    exact ⟨e', List.mem_append_left _ he', hr⟩
  refine ⟨h.threshold_eq, ?_, fun hd => (h.sound hd).append e, fun htrips => ?_, fun i r hr => ?_, h.unsaid,
    h.said, h.warned, h.printed, fun r hr => hmem (h.named r hr)⟩
  · show s.timeoutCount = (s.evidence ++ [e]).countP timeout
    rw [List.countP_append, List.countP_singleton, ht]
    exact h.timeouts
  · exact h.complete ((trips_append hu ht).1 htrips)
  · obtain ⟨htrips, hreason⟩ := h.reasons i r hr
    exact ⟨htrips.append e, hmem hreason⟩

/-- A thread that brings up something goes on to disable the remote where that is enough. -/
theorem BreakerInv.bring {e : Evidence} {count : Nat} {phase : OperationPhase} (h : BreakerInv threshold s)
    (hi : disabling (s.threads i) = none) (hcount : count = (s.evidence ++ [e]).countP timeout)
    (hphase : phase = .disable (reason e) ∧ Trips threshold (s.evidence ++ [e]) ∨
      phase = .idle ∧ (Trips threshold (s.evidence ++ [e]) → Trips threshold s.evidence)) :
    BreakerInv threshold { s.setThread i phase with
      timeoutCount := count, evidence := s.evidence ++ [e] } := by
  have hmem : ∀ {r}, (∃ e' ∈ s.evidence, reason e' = r) → ∃ e' ∈ s.evidence ++ [e], reason e' = r := by
    rintro r ⟨e', he', hr⟩
    exact ⟨e', List.mem_append_left _ he', hr⟩
  have hold : s.disabled = true ∨ (∃ j r, s.threads j = .disable r) →
      s.disabled = true ∨ ∃ j r, Function.update s.threads i phase j = .disable r := by
    refine Or.imp_right ?_
    rintro ⟨j, r, hj⟩
    refine exists_update (P := fun phase => ∃ r, phase = .disable r) ⟨j, r, hj⟩ ?_
    rintro ⟨r, hr⟩
    simp [hr, disabling] at hi
  have hunsaid : Remote.unsaid phase = false := by
    rcases hphase with ⟨rfl, -⟩ | ⟨rfl, -⟩ <;> rfl
  refine ⟨h.threshold_eq, hcount, fun hd => (h.sound hd).append e, fun htrips => ?_, ?_, ?_,
    fun hd => (h.said hd).imp_right ?_, h.warned, h.printed, fun r hr => hmem (h.named r hr)⟩
  · rcases hphase with ⟨rfl, -⟩ | ⟨-, hback⟩
    · exact .inr ⟨i, reason e, Function.update_self i _ s.threads⟩
    · exact hold (h.complete (hback htrips))
  · refine forall_update (Reasoned threshold (s.evidence ++ [e])) (fun r hr => ?_) fun j _ r hr => ?_
    · rcases hphase with ⟨rfl, htrips⟩ | ⟨rfl, -⟩
      · obtain rfl := Option.some.inj hr
        exact ⟨htrips, e, by simp, rfl⟩
      · cases hr
    · obtain ⟨htrips, hreason⟩ := h.reasons j r hr
      exact ⟨htrips.append e, hmem hreason⟩
  · refine forall_update (fun phase => Remote.unsaid phase = true → _) (fun hu => ?_) fun j _ => h.unsaid j
    rw [hunsaid] at hu
    cases hu
  · intro hsome
    exact exists_update (P := fun phase => Remote.unsaid phase = true) hsome (by simp [unsaid_of_disabling hi])

theorem BreakerInv.disable {r : String} (h : BreakerInv threshold s) (hi : s.threads i = .disable r) :
    BreakerInv threshold { s.setThread i (.setReason r) with disabled := true } := by
  have hreason := h.reasons i r (by simp [hi, disabling])
  refine ⟨h.threshold_eq, h.timeouts, fun _ => hreason.1, fun _ => .inl rfl, ?_, fun _ _ => rfl, fun _ => .inr ?_,
    fun _ => rfl, h.printed, h.named⟩
  · refine forall_update (Reasoned threshold _) (fun r' hr => ?_) fun j _ => h.reasons j
    obtain rfl := Option.some.inj hr
    exact hreason
  · exact exists_update_self (P := fun phase => Remote.unsaid phase = true) rfl

theorem BreakerInv.setReason {r : String} (h : BreakerInv threshold s) (hi : s.threads i = .setReason r) :
    BreakerInv threshold { s.setThread i (.warn r) with disableReason := some r } := by
  have hreason := h.reasons i r (by simp [hi, disabling])
  have hdisabled := h.unsaid i (by simp [hi, Remote.unsaid])
  refine ⟨h.threshold_eq, h.timeouts, h.sound, fun _ => .inl hdisabled, ?_, fun _ _ => hdisabled, fun _ => .inr ?_,
    h.warned, h.printed, h.named⟩
  · refine forall_update (Reasoned threshold _) (fun r' hr => ?_) fun j _ => h.reasons j
    obtain rfl := Option.some.inj hr
    exact hreason
  · exact exists_update_self (P := fun phase => Remote.unsaid phase = true) rfl

theorem BreakerInv.warn {r : String} (h : BreakerInv threshold s) (hi : s.threads i = .warn r) :
    BreakerInv threshold { s.setThread i .idle with
      warned := true
      printed := if s.warned then s.printed else s.printed ++ [r] } := by
  have hreason := h.reasons i r (by simp [hi, disabling])
  have hdisabled := h.unsaid i (by simp [hi, Remote.unsaid])
  have hprinted := h.printed
  refine ⟨h.threshold_eq, h.timeouts, h.sound, fun _ => .inl hdisabled, ?_, fun _ _ => hdisabled, fun _ => .inl rfl,
    fun _ => hdisabled, ?_, fun r' hr => ?_⟩
  · refine forall_update (Reasoned threshold _) (fun r' hr => ?_) fun j _ => h.reasons j
    cases hr
  · show (if s.warned then s.printed else s.printed ++ [r]).length = 1
    split at hprinted
    · rwa [if_pos ‹_›]
    · rw [if_neg ‹_›, List.length_append, hprinted, List.length_singleton]
  · replace hr : r' ∈ if s.warned then s.printed else s.printed ++ [r] := hr
    split at hr
    · exact h.named r' hr
    · rcases List.mem_append.1 hr with hr | hr
      · exact h.named r' hr
      · exact List.mem_singleton.1 hr ▸ hreason.2

/-- A timeout is counted. -/
theorem BreakerInv.recordTimeout {e : Evidence} (h : BreakerInv threshold s)
    (hi : disabling (s.threads i) = none) (hu : unhealthy e = false) (ht : timeout e = true) :
    BreakerInv threshold { s.recordTimeout i (reason e) with evidence := s.evidence ++ [e] } := by
  have hcount : s.timeoutCount + 1 = (s.evidence ++ [e]).countP timeout := by
    rw [List.countP_append, List.countP_singleton, ht, h.timeouts]
    rfl
  refine h.bring hi hcount ?_
  by_cases hle : s.timeoutDisableThreshold ≤ s.timeoutCount + 1
  · refine .inl ⟨if_pos hle, .inr ?_⟩
    rwa [← hcount, ← h.threshold_eq]
  · refine .inr ⟨if_neg hle, fun htrips => ((trips_append_timeout hu ht).1 htrips).resolve_right ?_⟩
    rwa [← h.timeouts, ← h.threshold_eq]

theorem BreakerInv.step {l : OperationLabel n} (h : BreakerInv threshold s) (hs : s.step l = some s') :
    BreakerInv threshold s' := by
  cases step_cases hs with
  | @begin i hi | @retry i limiter hi hl | @call i hi | @retryRclone i rclone hi hl =>
    refine h.inert ?_ (by simp [hi, disabling])
    split <;> rfl
  | wake | wakeRclone | discard =>
    exact ⟨h.threshold_eq, h.timeouts, h.sound, h.complete, h.reasons, h.unsaid, h.said, h.warned, h.printed,
      h.named⟩
  | @move i l phase hm =>
    refine h.inert ?_ ?_
    · cases hphase : s.threads i <;> rw [hphase] at hm <;> cases hm
      all_goals first
        | rfl
        | split <;> rfl
    · cases hphase : s.threads i <;> rw [hphase] at hm <;> cases hm <;> rfl
  | @leave i notified limiter hi => exact h.inert rfl (by rcases hi with hi | hi <;> simp [hi, disabling])
  | @start i timeout hi | @answered i notified rclone hi | @fail i notified limiter err hi | @flush i hi
  | @cancelTimedOut i hi => exact h.inert rfl (by simp [hi, disabling])
  | @ignore i err hi herr =>
    have htime : err.isTimeout = false := Bool.eq_false_iff.2 fun htime => by
      rw [ignored_of_isTimeout htime] at herr
      cases herr
    exact (h.ignore (e := .error err) (by simp [unhealthy, herr]) htime).inert rfl (by simp [hi, disabling])
  | @timeout i err hi herr =>
    exact h.recordTimeout (e := .error err) (by simp [hi, disabling]) (by simp [unhealthy, herr]) herr
  | @health i err hi herr htime =>
    have hunhealthy : unhealthy (.error err) = true := by simp [unhealthy, herr, htime]
    refine h.bring (e := .error err) (by simp [hi, disabling]) ?_ (.inl ⟨rfl, .inl ⟨_, by simp, hunhealthy⟩⟩)
    rw [List.countP_append, List.countP_singleton, show Breaker.timeout (.error err) = false from htime]
    exact h.timeouts
  | @timedOut i hi => exact h.recordTimeout (e := .flushTimeout) (by simp [hi, disabling]) rfl rfl
  | @disable i reason hi => exact h.disable hi
  | @setReason i reason hi => exact h.setReason hi
  | @warn i reason hi => exact h.warn hi

theorem BreakerInv.of_reachable (h : Reachable (remoteOperations n concurrency threshold) s) :
    BreakerInv (max threshold 1) s := by
  refine h.invariant (I := BreakerInv (max threshold 1)) ?_ fun _ _ _ _ hinv _ hs => hinv.step hs
  rintro _ rfl
  refine ⟨rfl, rfl, nofun, ?_, nofun, nofun, nofun, nofun, rfl, nofun⟩
  rintro (⟨e, he, -⟩ | hle)
  · cases he
  · simp [RemoteOperations.new] at hle

/-- The remote is disabled only where an answer said that it is not healthy, or timeouts were as many as the
threshold says; where no thread is about to disable it, it is disabled if so. The warning is printed at most
once, and names what was brought up; it has been printed where nobody is about to. -/
theorem disabled_iff (h : Reachable (remoteOperations n concurrency threshold) s) :
    (s.disabled = true → Trips (max threshold 1) s.evidence) ∧
    s.printed.length ≤ 1 ∧ (∀ r ∈ s.printed, s.disabled = true ∧ ∃ e ∈ s.evidence, reason e = r) ∧
    ((∀ i, disabling (s.threads i) = none) →
      (s.disabled = true ↔ Trips (max threshold 1) s.evidence) ∧ (s.disabled = true → s.printed ≠ [])) := by
  have hinv : BreakerInv (max threshold 1) s := .of_reachable h
  have hprinted := hinv.printed
  refine ⟨hinv.sound, ?_, fun r hr => ⟨?_, hinv.named r hr⟩, fun hrest => ⟨⟨hinv.sound, fun htrips => ?_⟩, ?_⟩⟩
  · split at hprinted <;> omega
  · refine hinv.warned (by_contra fun hw => ?_)
    rw [if_neg hw] at hprinted
    rw [List.eq_nil_of_length_eq_zero hprinted] at hr
    cases hr
  · refine (hinv.complete htrips).resolve_right ?_
    rintro ⟨i, r, hi⟩
    have hnone := hrest i
    rw [hi] at hnone
    cases hnone
  · intro hd hnil
    have hw : s.warned = true := (hinv.said hd).resolve_right fun ⟨i, hi⟩ => by
      rw [unsaid_of_disabling (hrest i)] at hi
      cases hi
    rw [if_pos hw, hnil] at hprinted
    cases hprinted

/-! ## Afterwards -/

/-- The thread has seen that the remote is not disabled, and not started its operation yet. -/
def letIn : OperationPhase → Bool
  | .checkCancelled | .readDeadline => true
  | _ => false

/-- What has started, and what may still start. -/
def bound (s : RemoteOperations n) : Nat := s.started + ∑ i, (letIn (s.threads i)).toNat

theorem bound_of_update {phase : OperationPhase} (hthreads : s'.threads = Function.update s.threads i phase)
    (hle : s'.started + (letIn phase).toNat ≤ s.started + (letIn (s.threads i)).toNat) : bound s' ≤ bound s := by
  have hsum := sum_update (fun phase => (letIn phase).toNat) s.threads i phase
  unfold bound
  rw [hthreads]
  omega

/-- A thread that is not let in. -/
theorem bound_of_out {phase : OperationPhase} (hthreads : s'.threads = Function.update s.threads i phase)
    (hstarted : s'.started = s.started) (hphase : letIn phase = false) : bound s' ≤ bound s := by
  refine bound_of_update hthreads ?_
  rw [hstarted, hphase]
  exact Nat.le_add_right _ _

/-- Where the remote is disabled, nobody is let in any more. -/
theorem bound_step {l : OperationLabel n} (hd : s.disabled = true) (hs : s.step l = some s') :
    s'.disabled = true ∧ bound s' ≤ bound s := by
  cases step_cases hs with
  | wake | wakeRclone | discard => exact ⟨hd, le_rfl⟩
  | @begin i | @retry i | @call i | @retryRclone i | @timeout i | @timedOut i =>
    refine ⟨hd, bound_of_out (i := i) rfl rfl ?_⟩
    split <;> rfl
  | @move i l phase hm =>
    refine ⟨hd, ?_⟩
    generalize hphase : s.threads i = phase' at hm
    cases hm with
    | disabled =>
      rw [if_pos hd]
      exact bound_of_out (i := i) rfl rfl rfl
    | cancelled =>
      refine bound_of_update (i := i) rfl (Nat.add_le_add_left ?_ _)
      split <;> simp [hphase, letIn]
    | late | failed | ended => exact bound_of_out (i := i) rfl rfl rfl
  | @start i timeout hi =>
    refine ⟨hd, bound_of_update (i := i) rfl ?_⟩
    rw [hi]
    exact le_rfl
  | @disable i => exact ⟨rfl, bound_of_out (i := i) rfl rfl rfl⟩
  | @answered i | @leave i | @fail i | @ignore i | @health i | @flush i | @setReason i | @warn i
  | @cancelTimedOut i => exact ⟨hd, bound_of_out (i := i) rfl rfl rfl⟩

theorem sum_letIn_le (h : PermitsInv limit s) : ∑ i, (letIn (s.threads i)).toNat ≤ limit := by
  have hsub : (Finset.univ.filter fun i => letIn (s.threads i) = true) ⊆ s.limiter.admitted.toFinset := by
    refine fun i hi => List.mem_toFinset.2 ((h.operations.holding.2 i).2 ?_)
    have hin := (Finset.mem_filter.1 hi).2
    cases hphase : s.threads i <;> simp [hphase, letIn, standing] at hin ⊢
  calc ∑ i, (letIn (s.threads i)).toNat
    _ = (Finset.univ.filter fun i => letIn (s.threads i) = true).card := by
      rw [Finset.card_filter]
      refine Finset.sum_congr rfl fun i _ => ?_
      cases letIn (s.threads i) <;> rfl
    _ ≤ s.limiter.admitted.toFinset.card := Finset.card_le_card hsub
    _ ≤ s.limiter.admitted.length := s.limiter.admitted.toFinset_card_le
    _ ≤ limit := h.limiter.inUse ▸ h.limiter.le

/-- Once the remote is disabled it stays so, and in the whole rest of the run no more operations start than
had been let in by then, which are as many as the limit allows at most. -/
theorem started_after_disable (h : Reachable (remoteOperations n concurrency threshold) s)
    (hd : s.disabled = true)
    (ht : Reachable ((remoteOperations n concurrency threshold).resume s) t) :
    t.disabled = true ∧ t.started ≤ s.started + ∑ i, (letIn (s.threads i)).toNat ∧
    t.started ≤ s.started + max concurrency 1 := by
  have hrun : t.disabled = true ∧ bound t ≤ bound s := by
    refine ht.invariant (I := fun t => t.disabled = true ∧ bound t ≤ bound s) ?_ ?_
    · rintro _ rfl
      exact ⟨hd, le_rfl⟩
    · rintro u l v - ⟨hu, hle⟩ - hs
      obtain ⟨hv, hlt⟩ := bound_step hu hs
      exact ⟨hv, hlt.trans hle⟩
  have hbound := hrun.2
  have hletIn := sum_letIn_le (.of_reachable h)
  unfold bound at hbound
  exact ⟨hrun.1, by omega, by omega⟩

/-- The first thread's timeout disables the remote while the second waits, which is then refused. -/
def givenUp : List (OperationLabel 2) :=
  [.begin 0, .begin 1, .operation 0, .operation 0, .deadline 0 30, .operation 0, .release 0 none,
    .finish 0 (some (.Timeout 30)), .release 0 (some 1), .record 0, .record 0, .record 0, .record 0]

theorem disabled_iff_narrow : ∃ s, Reachable narrow s ∧ s.printed = ["sync timed out after 30s"] ∧
    (s.disabled = true ↔ Trips 1 s.evidence) := by
  obtain ⟨s, hreach, hview⟩ := narrow_reach givenUp (fun s => (s.printed, s.threads 0, s.threads 1))
    (["sync timed out after 30s"], .idle, .waiting) (by decide)
  simp only [Prod.mk.injEq] at hview
  obtain ⟨hprinted, hfirst, hsecond⟩ := hview
  have hrest : ∀ i, disabling (s.threads i) = none :=
    Fin.forall_fin_two.2 ⟨congrArg disabling hfirst, congrArg disabling hsecond⟩
  exact ⟨s, hreach, hprinted, ((disabled_iff hreach).2.2.2 hrest).1⟩

/-- The second thread's operation does not start. -/
theorem started_after_disable_narrow : ∃ s t, Reachable narrow s ∧ Reachable (narrow.resume s) t ∧
    t.threads 1 = .refused ∧ t.started ≤ s.started + ∑ i, (letIn (s.threads i)).toNat := by
  have hrun : ((narrow.run (fun _ _ => True) (.new 2 1 1) givenUp).bind fun s =>
      (narrow.run (fun _ _ => True) s [.operation 1, .operation 1]).map fun t =>
        (s.disabled, t.threads 1)) = some (true, .refused) := by decide
  obtain ⟨s, hs, hrun⟩ := Option.bind_eq_some_iff.1 hrun
  obtain ⟨t, ht, hview⟩ := Option.map_eq_some_iff.1 hrun
  obtain ⟨hd, hrefused⟩ := Prod.mk.inj hview
  have hreach : Reachable narrow s := Reach.run (.init rfl) hs
  have hresume : Reachable (narrow.resume s) t := System.reach_of_run ht
  exact ⟨s, t, hreach, hresume, hrefused, (started_after_disable hreach hd hresume).2.1⟩

end Luchta.Proof.Remote
