import Luchta.Proof.Remote.PushOrder

/-!
# The push queue as an ordered barrier queue

* `done_of_stuck`, `ended_of_stuck`: where no worker can go on, every accepted job is done, and if
  the queue is closed every worker has ended.
* `potential_run`: in every run the workers take a bounded number of steps for every job that is
  sent and every time they are woken.
* `push_queue`: exactly once, barriers in order, the depth counter, no deadlock, termination.
* `push_depth`: a job that a worker has received may still be counted in the depth.
-/

namespace Luchta.Proof.Remote

open Luchta.Framework Luchta.Impl

variable {m n capacity : Nat} {s t : PushQueue m n} {w : Fin n} {job : PushJob}
  {l : PushStep m n}

/-! ## Where no worker can go on -/

def Stuck (s : PushQueue m n) : Prop := ∀ w, s.workerStep w = none

/-- It is asleep, done, or waits for the channel or for the one that does. -/
theorem Stuck.phase (h : Stuck s) (hl : Locks s) (w : Fin n) :
    (∃ job, s.workers w = .sleep job) ∨ s.workers w = .ended ∨ s.workers w = .lockReceiver ∨
      s.workers w = .recv := by
  have hfree : s.progressLock = none := by
    by_contra hlock
    obtain ⟨v, hv⟩ := Option.ne_none_iff_exists'.1 hlock
    have hin : inProgress (s.workers v) = true := (hl.progress v).2 hv
    have hstep := h v
    unfold PushQueue.workerStep at hstep
    cases hw : s.workers v with
    | loopThrough | loopCancelled | wait | leave =>
      rw [hw] at hstep
      contradiction
    | _ =>
      rw [hw] at hin
      contradiction
  have hstep := h w
  unfold PushQueue.workerStep at hstep
  cases hw : s.workers w with
  | sleep job => exact .inl ⟨job, rfl⟩
  | ended => exact .inr (.inl rfl)
  | lockReceiver => exact .inr (.inr (.inl rfl))
  | recv => exact .inr (.inr (.inr rfl))
  | lockProgress | woken | complete =>
    rw [hw] at hstep
    change (if s.progressLock = none then _ else _) = none at hstep
    rw [if_pos hfree] at hstep
    contradiction
  | _ =>
    rw [hw] at hstep
    contradiction

/-- Whoever waits for the channel finds it empty and open. -/
theorem Stuck.waiting (h : Stuck s) (hl : Locks s)
    (hw : s.workers w = .lockReceiver ∨ s.workers w = .recv) :
    s.channel = [] ∧ s.sender = true := by
  have hrecv {v : Fin n} (hv : s.workers v = .recv) : s.channel = [] ∧ s.sender = true := by
    have hstep := h v
    unfold PushQueue.workerStep at hstep
    rw [hv] at hstep
    dsimp only at hstep
    split at hstep
    · contradiction
    · rename_i hchannel
      split at hstep
      · rename_i hsender
        exact ⟨hchannel, hsender⟩
      · contradiction
  rcases hw with hw | hw
  · have hstep := h w
    unfold PushQueue.workerStep at hstep
    rw [hw] at hstep
    dsimp only at hstep
    split at hstep
    · contradiction
    · rename_i hlock
      obtain ⟨v, hv⟩ := Option.ne_none_iff_exists'.1 hlock
      exact hrecv ((hl.receiver v).2 hv)
  · exact hrecv hw

/-- The first job that is not done is in the hands of nobody who sleeps. -/
theorem OrderInv.sleep_lt (hinv : OrderInv s) (hw : s.workers w = .sleep job) :
    s.progress.completedThrough + 1 < job.id := by
  have hi := hinv.history.workers w
  rw [hw] at hi
  change _ < _ - 1 at hi
  omega

theorem OrderInv.le_completedThrough {id : Nat} (hinv : OrderInv s) (h : Stuck s)
    (hid : id ≤ taken s) : id ≤ s.progress.completedThrough := by
  by_contra hnot
  have hnext : s.progress.completedThrough + 1 ≤ taken s := by omega
  rcases hinv.holding.covered _ (Nat.succ_pos _) hnext with hdone | ⟨w, job, hjob, heq⟩
  · rcases hdone with hle | hmem
    · omega
    · exact hinv.holding.watermark hmem
  · rcases h.phase hinv.locks w with ⟨job', hw⟩ | hw | hw | hw
    · rw [hw] at hjob
      have hlt := hinv.sleep_lt hw
      rw [Option.some.inj hjob] at hlt
      omega
    · rw [hw] at hjob
      contradiction
    · rw [hw] at hjob
      contradiction
    · rw [hw] at hjob
      contradiction

theorem OrderInv.not_sleep (hinv : OrderInv s) (h : Stuck s) : s.workers w ≠ .sleep job := by
  intro hw
  have hle := hinv.le_completedThrough h (hinv.holding.held w job (by rw [hw]; rfl)).2.1
  have hlt := hinv.sleep_lt hw
  omega

/-- Where no worker can go on the channel is empty. -/
theorem OrderInv.channel_eq_nil (hinv : OrderInv s) (h : Stuck s) (w : Fin n) :
    s.channel = [] := by
  rcases h.phase hinv.locks w with ⟨job, hw⟩ | hw | hw | hw
  · exact absurd hw (hinv.not_sleep h)
  · have hi := hinv.history.workers w
    rw [hw] at hi
    exact hi.2
  · exact (h.waiting hinv.locks (.inl hw)).1
  · exact (h.waiting hinv.locks (.inr hw)).1

theorem OrderInv.done_of_stuck (hinv : OrderInv s) (h : Stuck s) (w : Fin n)
    (hjob : job ∈ s.accepted) : Done s.progress job.id := by
  refine .inl (hinv.le_completedThrough h ?_)
  rw [taken, hinv.channel_eq_nil h w]
  exact (hinv.admission.mem_accepted hjob).2.1

theorem OrderInv.ended_of_stuck (hinv : OrderInv s) (h : Stuck s) (hclosed : s.sender = false)
    (w : Fin n) : s.workers w = .ended := by
  have hopen (hw : s.workers w = .lockReceiver ∨ s.workers w = .recv) : False := by
    have hsender := (h.waiting hinv.locks hw).2
    rw [hclosed] at hsender
    contradiction
  rcases h.phase hinv.locks w with ⟨job, hw⟩ | hw | hw | hw
  · exact absurd hw (hinv.not_sleep h)
  · exact hw
  · exact (hopen (.inl hw)).elim
  · exact (hopen (.inr hw)).elim

theorem exists_step (h : ¬ Stuck s) : ∃ w, (s.workerStep w).isSome := by
  unfold Stuck at h
  push Not at h
  obtain ⟨w, hw⟩ := h
  exact ⟨w, Option.isSome_iff_ne_none.2 hw⟩

/-! ## How many steps the workers take -/

/-- An upper bound of the steps that the job in hand still needs. Completing it may wake all. -/
def weight (n : Nat) : WorkerPhase → Nat
  | .ended => 0
  | .recv => 1
  | .lockReceiver => 2
  | .complete _ => 4 * n + 3
  | .run _ => 4 * n + 4
  | .leave _ => 4 * n + 5
  | .sleep _ => 4 * n + 6
  | .wait _ => 4 * n + 7
  | .loopCancelled _ => 4 * n + 8
  | .loopThrough _ => 4 * n + 9
  | .woken _ | .lockProgress _ => 4 * n + 10
  | .checkCancelled _ => 4 * n + 11
  | .subDepth _ => 4 * n + 12

def potential (s : PushQueue m n) : Nat :=
  ∑ w, weight n (s.workers w) + s.channel.length * (4 * n + 13)

/-- What a step of others may add to it. -/
def cost (n : Nat) (sender : Bool) : PushStep m n → Nat
  | .producer _ => if sender then 4 * n + 13 else 0
  | .notifyAll => 4 * n
  | .wake _ => 4
  | _ => 0

def workerSteps : PushStep m n → Nat
  | .worker _ => 1
  | _ => 0

theorem weight_wake (n : Nat) (a : WorkerPhase) : weight n a.wake ≤ weight n a + 4 := by
  cases a with
  | sleep => exact le_rfl
  | _ => exact Nat.le_add_right _ _

theorem PhaseMove.weight {a b : WorkerPhase} (h : PhaseMove s a b) (ha : ∀ job, a ≠ .sleep job) :
    weight n b + 1 ≤ weight n a := by
  cases h with
  | wake => exact absurd rfl (ha _)
  | _ =>
    unfold Remote.weight
    dsimp only
    omega

theorem sum_wake (x : Fin n → WorkerPhase) :
    ∑ w, weight n (x w).wake ≤ ∑ w, weight n (x w) + 4 * n := by
  have h := sum_map_le x (weight_wake n)
  rw [Fintype.card_fin] at h
  omega

theorem potential_worker (he : WorkerEffect s w t) :
    potential t + 1 ≤ potential s ∨
      (∃ job, s.workers w = .sleep job) ∧ potential t ≤ potential s + 4 := by
  have hsum (a : WorkerPhase) := sum_update (weight n) s.workers w a
  cases he with
  | @move a b _ _ hw hmove =>
    have hsum := hsum b
    rw [hw] at hsum
    by_cases hsleep : ∃ job, a = .sleep job
    · obtain ⟨job, rfl⟩ := hsleep
      refine .inr ⟨⟨job, hw⟩, ?_⟩
      cases hmove
      change _ + (4 * n + 6) = _ + (4 * n + 10) at hsum
      show ∑ v, weight n (Function.update s.workers w _ v) + s.channel.length * (4 * n + 13) ≤
        ∑ v, weight n (s.workers v) + s.channel.length * (4 * n + 13) + 4
      omega
    · left
      have hlt := hmove.weight fun job heq => hsleep ⟨job, heq⟩
      show ∑ v, weight n (Function.update s.workers w _ v) + s.channel.length * (4 * n + 13) + 1 ≤
        ∑ v, weight n (s.workers v) + s.channel.length * (4 * n + 13)
      omega
  | @recv job channel hw hchannel =>
    have hsum := hsum (.subDepth job)
    rw [hw] at hsum
    change _ + 1 = _ + (4 * n + 12) at hsum
    left
    show ∑ v, weight n (Function.update s.workers w _ v) + channel.length * (4 * n + 13) + 1 ≤
      ∑ v, weight n (s.workers v) + s.channel.length * (4 * n + 13)
    rw [hchannel, List.length_cons, Nat.add_mul, Nat.one_mul]
    omega
  | @subDepth job hw =>
    have hsum := hsum (.checkCancelled job)
    rw [hw] at hsum
    change _ + (4 * n + 12) = _ + (4 * n + 11) at hsum
    left
    show ∑ v, weight n (Function.update s.workers w _ v) + s.channel.length * (4 * n + 13) + 1 ≤
      ∑ v, weight n (s.workers v) + s.channel.length * (4 * n + 13)
    omega
  | @run job hw =>
    have hsum := hsum (.complete job)
    rw [hw] at hsum
    change _ + (4 * n + 4) = _ + (4 * n + 3) at hsum
    left
    show ∑ v, weight n (Function.update s.workers w _ v) + s.channel.length * (4 * n + 13) + 1 ≤
      ∑ v, weight n (s.workers v) + s.channel.length * (4 * n + 13)
    omega
  | @complete job hw =>
    have hsum := sum_update (weight n) (fun v => (s.workers v).wake) w .lockReceiver
    rw [hw] at hsum
    change _ + (4 * n + 3) = _ + 2 at hsum
    have hwake := sum_wake s.workers
    left
    show ∑ v, weight n (Function.update (fun v => (s.workers v).wake) w _ v) +
      s.channel.length * (4 * n + 13) + 1 ≤ ∑ v, weight n (s.workers v) + s.channel.length * (4 * n + 13)
    omega

theorem potential_producer {p : Fin m} (he : ProducerEffect s p t) (hinv : PushInv s) :
    potential t ≤ potential s + if s.sender then 4 * n + 13 else 0 := by
  cases he with
  | @send job hp =>
    rw [hinv.admission.sender p (hp ▸ rfl), if_pos rfl]
    show ∑ v, weight n (s.workers v) + (s.channel ++ [job]).length * (4 * n + 13) ≤
      ∑ v, weight n (s.workers v) + s.channel.length * (4 * n + 13) + (4 * n + 13)
    rw [List.length_append, List.length_singleton, Nat.add_mul, Nat.one_mul, Nat.add_assoc]
  | _ => exact Nat.le_add_right _ _

theorem potential_enqueue {p : Fin m} {message : PushMsg} (h : s.enqueuePush p message = some t) :
    potential t = potential s := by
  unfold PushQueue.enqueuePush at h
  split at h
  · cases h
    rfl
  · contradiction

/-- A step of a worker lowers the potential, and the others raise it by what they cost. -/
theorem potential_step (hstep : (pushQueue m n capacity).step s l = some t) (hinv : PushInv s) :
    potential t + workerSteps l ≤ potential s + cost n s.sender l := by
  have he := step_effect hstep
  cases he with
  | enqueue => exact (potential_enqueue hstep).le
  | producer he => exact potential_producer he hinv
  | @worker w _ he =>
    refine (potential_worker he).elim id fun ⟨⟨job, hw⟩, _⟩ => ?_
    change s.workerStep w = _ at hstep
    unfold PushQueue.workerStep at hstep
    rw [hw] at hstep
    contradiction
  | close | cancel => exact le_rfl
  | notifyAll =>
    have hwake := sum_wake s.workers
    show ∑ v, weight n (s.workers v).wake + s.channel.length * (4 * n + 13) ≤
      ∑ v, weight n (s.workers v) + s.channel.length * (4 * n + 13) + 4 * n
    omega
  | wake he =>
    refine (potential_worker he).elim (fun h => ?_) And.right
    exact (Nat.le_succ _).trans (h.trans (Nat.le_add_right _ _))
  | spurious => exact Nat.le_add_right _ _

/-- A queue is not opened again. -/
theorem sender_step (he : Effect s l t) (hclosed : s.sender = false) : t.sender = false := by
  have hproducer {p : Fin m} (he : ProducerEffect s p t) : t.sender = false := by
    cases he with
    | _ => exact hclosed
  have hworker {w : Fin n} (he : WorkerEffect s w t) : t.sender = false := by
    cases he with
    | _ => exact hclosed
  cases he with
  | enqueue he => exact hproducer he
  | producer he => exact hproducer he
  | worker he => exact hworker he
  | wake he => exact hworker he
  | close => rfl
  | cancel | notifyAll | spurious => exact hclosed

theorem cost_mono {sender sender' : Bool} (h : sender = false → sender' = false)
    (l : PushStep m n) : cost n sender' l ≤ cost n sender l := by
  cases sender with
  | false => rw [h rfl]
  | true =>
    cases l with
    | producer =>
      show (if sender' then 4 * n + 13 else 0) ≤ 4 * n + 13
      split
      · exact le_rfl
      · exact Nat.zero_le _
    | _ => exact le_rfl

/-- A run has as many steps of workers as the potential and the costs on the way allow. -/
theorem potential_run {ls : List (PushStep m n)} (hinv : PushInv s)
    (h : (pushQueue m n capacity).run (fun _ _ => True) s ls = some t) :
    potential t + (ls.map workerSteps).sum ≤ potential s + (ls.map (cost n s.sender)).sum := by
  induction ls generalizing s with
  | nil =>
    rw [Option.some.inj h]
    exact le_rfl
  | cons l ls ih =>
    rw [System.run, if_pos trivial] at h
    obtain ⟨u, hu, ht⟩ := Option.bind_eq_some_iff.1 h
    have he := step_effect hu
    have hrest := ih (hinv.step he) ht
    have hfirst := potential_step hu hinv
    have hcost : (ls.map (cost n u.sender)).sum ≤ (ls.map (cost n s.sender)).sum :=
      List.sum_le_sum fun l _ => cost_mono (sender_step he) l
    simp only [List.map_cons, List.sum_cons]
    omega

/-! ## The queue -/

theorem frame_step (he : Effect s l t) :
    t.capacity = s.capacity ∧ (l ≠ .cancel → t.cancelled = s.cancelled) := by
  have hproducer {p : Fin m} (he : ProducerEffect s p t) :
      t.capacity = s.capacity ∧ t.cancelled = s.cancelled := by
    cases he with
    | _ => exact ⟨rfl, rfl⟩
  have hworker {w : Fin n} (he : WorkerEffect s w t) :
      t.capacity = s.capacity ∧ t.cancelled = s.cancelled := by
    cases he with
    | _ => exact ⟨rfl, rfl⟩
  cases he with
  | enqueue he => exact (hproducer he).imp_right fun h _ => h
  | producer he => exact (hproducer he).imp_right fun h _ => h
  | worker he => exact (hworker he).imp_right fun h _ => h
  | wake he => exact (hworker he).imp_right fun h _ => h
  | cancel => exact ⟨rfl, fun hne => absurd rfl hne⟩
  | close | notifyAll | spurious => exact ⟨rfl, fun _ => rfl⟩

theorem capacity_eq (h : Reachable (pushQueue m n capacity) s) : s.capacity = capacity := by
  refine h.invariant (I := fun s => s.capacity = capacity) (fun _ hinit => congrArg _ hinit) ?_
  exact fun s l t _ hs _ hstep => (frame_step (step_effect hstep)).1.trans hs

theorem not_cancelled (h : Reach (pushQueue m n capacity) (fun _ l => l ≠ .cancel) s) :
    s.cancelled = false := by
  refine h.invariant (I := fun s => s.cancelled = false) (fun _ hinit => congrArg _ hinit) ?_
  exact fun s l t _ hs hl hstep => ((frame_step (step_effect hstep)).2 hl).trans hs

/-- The jobs are numbered in the order in which they are accepted. Without cancellation every job is
run at most once, those that are done were run, and where no worker can go on all accepted jobs
were. With or without it: a barrier runs only when all jobs accepted before it are finished; the
depth counter counts the jobs in the channel, those about to be sent and those received and not yet
counted out, and stays within the capacity; some worker can go on while an accepted job is not done,
and while the queue is closed and a worker has not ended; and every run has a bounded number of
steps of workers, where those who wake them pay for it. -/
theorem push_queue (hn : 0 < n) :
    (∀ s, Reach (pushQueue m n capacity) (fun _ l => l ≠ .cancel) s →
      s.executed.Nodup ∧ (∀ job ∈ s.executed, job ∈ s.accepted) ∧
      (∀ job ∈ s.accepted, Done s.progress job.id → job ∈ s.executed) ∧
      (Stuck s → ∀ job ∈ s.accepted, job ∈ s.executed)) ∧
    ∀ s, Reachable (pushQueue m n capacity) s →
      (∀ i job, s.accepted[i]? = some job → job.id = i + 1) ∧
      (∀ w job, s.workers w = .run job → job.message.mayRunConcurrently = false → Cleared s job) ∧
      (∀ job ∈ s.executed, job.message.mayRunConcurrently = false → Cleared s job) ∧
      s.depth =
        s.channel.length + ∑ p, sending (s.producers p) + ∑ w, counting (s.workers w) ∧
      s.depth ≤ capacity ∧
      ((∃ job ∈ s.accepted, ¬ Done s.progress job.id) → ∃ w, (s.workerStep w).isSome) ∧
      (s.sender = false → (∃ w, s.workers w ≠ .ended) → ∃ w, (s.workerStep w).isSome) ∧
      ∀ ls t, (pushQueue m n capacity).run (fun _ _ => True) s ls = some t →
        potential t + (ls.map workerSteps).sum ≤ potential s + (ls.map (cost n s.sender)).sum := by
  constructor
  · intro s h
    have hinv := OrderInv.of_reachable h.reachable
    have hcancelled : s.cancelled = false := not_cancelled h
    refine ⟨hinv.history.nodup, fun job hjob => (hinv.history.executed job hjob).1,
      hinv.history.honest hcancelled, fun hstuck job hjob => ?_⟩
    exact hinv.history.honest hcancelled job hjob (hinv.done_of_stuck hstuck ⟨0, hn⟩ hjob)
  · intro s h
    have hinv := OrderInv.of_reachable h
    refine ⟨hinv.admission.ids, ?_, hinv.history.barriers, hinv.admission.depth,
      capacity_eq h ▸ hinv.admission.bound, ?_, ?_, fun ls t => potential_run hinv.toPushInv⟩
    · intro w job hw
      have hi := hinv.history.workers w
      rw [hw] at hi
      exact hi
    · intro ⟨job, hjob, hdone⟩
      apply exists_step
      exact fun hstuck => hdone (hinv.done_of_stuck hstuck ⟨0, hn⟩ hjob)
    · intro hclosed ⟨w, hw⟩
      apply exists_step
      exact fun hstuck => hw (hinv.ended_of_stuck hstuck hclosed w)

/-! ## A run -/

private def enqueue (message : PushMsg) : List (PushStep 1 2) :=
  .enqueue 0 message :: List.replicate 7 (.producer 0)

/-- The second worker receives the flush while the first one has the artifacts, sleeps, and is woken
when they are done. -/
private def flushRun : List (PushStep 1 2) :=
  enqueue .EntryArtifacts ++ enqueue .Flush ++ List.replicate 5 (.worker 0) ++
    List.replicate 8 (.worker 1) ++ [.worker 0] ++ List.replicate 5 (.worker 1)

private theorem flushRun_executed : ((pushQueue 1 2 2).run (fun _ l => l ≠ .cancel)
    (.initial 1 2 2) flushRun).map (·.executed) =
      some [⟨1, .EntryArtifacts⟩, ⟨2, .Flush⟩] := by
  decide

theorem push_queue_sample : ∃ s, Reach (pushQueue 1 2 2) (fun _ l => l ≠ .cancel) s ∧
    s.executed = [⟨1, .EntryArtifacts⟩, ⟨2, .Flush⟩] ∧ s.executed.Nodup ∧
    Cleared s ⟨2, .Flush⟩ := by
  obtain ⟨s, hs, hexecuted⟩ := Option.map_eq_some_iff.1 flushRun_executed
  have hreach : Reach (pushQueue 1 2 2) (fun _ l => l ≠ .cancel) s := .run (.init rfl) hs
  have hqueue := @push_queue 1 2 2 (by decide)
  refine ⟨s, hreach, hexecuted, (hqueue.1 s hreach).1, ?_⟩
  apply (hqueue.2 s hreach.reachable).2.2.1 ⟨2, .Flush⟩ _ rfl
  rw [hexecuted]
  decide

/-- A worker that has received a job counts it out one step later. -/
theorem push_depth : ∃ s, Reach (pushQueue 1 1 1) (fun _ l => l ≠ .cancel) s ∧
    s.accepted = [⟨1, .EntryArtifacts⟩] ∧ s.channel = [] ∧
    s.workers 0 = .subDepth ⟨1, .EntryArtifacts⟩ ∧ s.depth = 1 := by
  have hrun : ((pushQueue 1 1 1).run (fun _ l => l ≠ .cancel) (.initial 1 1 1)
      (.enqueue 0 .EntryArtifacts :: List.replicate 7 (.producer 0) ++
        List.replicate 2 (.worker 0))).map
          (fun s => (s.accepted, s.channel, s.workers 0, s.depth)) =
      some ([⟨1, .EntryArtifacts⟩], [], .subDepth ⟨1, .EntryArtifacts⟩, 1) := by
    decide
  obtain ⟨s, hs, heq⟩ := Option.map_eq_some_iff.1 hrun
  refine ⟨s, .run (.init rfl) hs, congrArg Prod.fst heq, congrArg (·.2.1) heq,
    congrArg (·.2.2.1) heq, congrArg (·.2.2.2) heq⟩

end Luchta.Proof.Remote
