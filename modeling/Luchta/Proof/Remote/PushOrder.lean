import Luchta.Proof.Remote.PushInvariant

/-!
# Order in the push queue

* `WorkerInv`: what a worker knows where it stands.
* `History`: a job is run at most once; unless the queue is cancelled every job that is done was
  run; where a barrier was run, so was everything that was accepted before it.
* `OrderInv.of_reachable`: this holds in every state.
-/

namespace Luchta.Proof.Remote

open Luchta.Framework Luchta.Impl

variable {m n : Nat} {s t : PushQueue m n} {w v : Fin n} {p : Fin m} {job : PushJob}
  {a b : WorkerPhase}

/-- Run to its end, and reported so. -/
def Finished (s : PushQueue m n) (job : PushJob) : Prop :=
  job ∈ s.executed ∧ Done s.progress job.id

/-- Everything that was accepted before the job is finished. -/
def Cleared (s : PushQueue m n) (job : PushJob) : Prop :=
  ∀ job' ∈ s.accepted, job'.id < job.id → Finished s job'

/-- What a worker knows in a phase. -/
def WorkerInv (s : PushQueue m n) : WorkerPhase → Prop
  | .loopCancelled job | .wait job | .sleep job => s.progress.completedThrough < job.id - 1
  | .leave job => job.id - 1 ≤ s.progress.completedThrough ∨ s.cancelled = true
  | .run job => job.message.mayRunConcurrently = false → Cleared s job
  | .complete job => s.cancelled = false → job ∈ s.executed
  | .ended => s.sender = false ∧ s.channel = []
  | _ => True

structure History (s : PushQueue m n) : Prop where
  workers : ∀ w, WorkerInv s (s.workers w)
  executed : ∀ job ∈ s.executed,
    job ∈ s.accepted ∧ (Done s.progress job.id ∨ ∃ w, s.workers w = .complete job)
  nodup : s.executed.Nodup
  barriers : ∀ job ∈ s.executed, job.message.mayRunConcurrently = false → Cleared s job
  honest : s.cancelled = false → ∀ job ∈ s.accepted, Done s.progress job.id → job ∈ s.executed

theorem History.initial (capacity : Nat) : History (PushQueue.initial m n capacity) where
  workers _ := trivial
  executed _ h := nomatch h
  nodup := List.nodup_nil
  barriers _ h := nomatch h
  honest _ _ h := nomatch h

/-! ## Steps of others -/

/-- What may have changed where the progress has not. -/
structure Later (s t : PushQueue m n) : Prop where
  progress : t.progress = s.progress
  cancelled : t.cancelled = false → s.cancelled = false
  accepted : ∀ job ∈ t.accepted, job ∈ s.accepted ∨ s.accepted.length < job.id
  executed : ∀ job ∈ s.executed, job ∈ t.executed
  ended : s.sender = false → s.channel = [] → t.sender = false ∧ t.channel = []

theorem Later.cleared (h : Later s t) (hc : Cleared s job) (hjob : job.id ≤ s.accepted.length) :
    Cleared t job := by
  intro job' hjob' hid
  rcases h.accepted job' hjob' with hold | hnew
  · obtain ⟨hexecuted, hdone⟩ := hc job' hold hid
    exact ⟨h.executed job' hexecuted, h.progress ▸ hdone⟩
  · omega

theorem Later.workerInv (h : Later s t) (hjob : ∀ job, inHand a = some job →
    job.id ≤ s.accepted.length) (hi : WorkerInv s a) : WorkerInv t a := by
  cases a with
  | loopCancelled | wait | sleep =>
    show t.progress.completedThrough < _
    rw [h.progress]
    exact hi
  | leave job =>
    show _ ≤ t.progress.completedThrough ∨ _
    rw [h.progress]
    refine hi.imp_right fun hcancelled => ?_
    rw [← Bool.not_eq_false]
    intro hnot
    rw [h.cancelled hnot] at hcancelled
    contradiction
  | run job => exact fun hb => h.cleared (hi hb) (hjob job rfl)
  | complete job => exact fun hc => h.executed job (hi (h.cancelled hc))
  | ended => exact h.ended hi.1 hi.2
  | _ => trivial

theorem PushInv.inHand_le (h : PushInv s) (w : Fin n) (hjob : inHand (s.workers w) = some job) :
    job.id ≤ s.accepted.length :=
  (h.admission.mem_accepted (h.holding.held w job hjob).1).2.1

/-- The workers are where they were, except perhaps for one that says what it knows. -/
theorem History.later (h : History s) (hinv : PushInv s) (hl : Later s t)
    (hworkers : ∀ v, t.workers v = s.workers v ∨ WorkerInv t (t.workers v))
    (hcomplete : ∀ v job, s.workers v = .complete job → t.workers v = .complete job)
    (haccepted : ∀ job ∈ s.accepted, job ∈ t.accepted) (hexecuted : t.executed = s.executed)
    (hdone : ∀ id, Done s.progress id → id ≤ s.accepted.length) : History t where
  workers v := by
    rcases hworkers v with heq | hi
    · rw [heq]
      exact hl.workerInv (fun job => hinv.inHand_le v) (h.workers v)
    · exact hi
  executed job hjob := by
    rw [hexecuted] at hjob
    rw [hl.progress]
    obtain ⟨hmem, hdone⟩ := h.executed job hjob
    exact ⟨haccepted job hmem, hdone.imp_right fun ⟨v, hv⟩ => ⟨v, hcomplete v job hv⟩⟩
  nodup := hexecuted ▸ h.nodup
  barriers job hjob hb := by
    rw [hexecuted] at hjob
    exact hl.cleared (h.barriers job hjob hb)
      (hinv.admission.mem_accepted (h.executed job hjob).1).2.1
  honest hc job hjob hd := by
    rw [hl.progress] at hd
    rw [hexecuted]
    rcases hl.accepted job hjob with hold | hnew
    · exact h.honest (hl.cancelled hc) job hold hd
    · have hle := hdone job.id hd
      omega

theorem PushInv.done_le (h : PushInv s) (id : Nat) (hd : Done s.progress id) :
    id ≤ s.accepted.length :=
  (h.holding.done id hd).trans (Nat.sub_le _ _)

theorem History.producer (h : History s) (hinv : PushInv s) (he : ProducerEffect s p t) :
    History t := by
  cases he with
  | @send job hp =>
    refine h.later hinv ⟨rfl, id, ?_, fun _ => id, ?_⟩ (fun _ => .inl rfl) (fun _ _ => id)
      (fun _ => List.mem_append_left _) rfl hinv.done_le
    · intro job' hjob'
      refine (List.mem_append.1 hjob').imp_right fun hnew => ?_
      rw [List.mem_singleton.1 hnew, hinv.admission.number p job (hp ▸ rfl)]
      exact Nat.lt_succ_self _
    · intro hclosed
      rw [hinv.admission.sender p (hp ▸ rfl)] at hclosed
      contradiction
  | _ =>
    exact h.later hinv ⟨rfl, id, fun _ => .inl, fun _ => id, fun hs hc => ⟨hs, hc⟩⟩
      (fun _ => .inl rfl) (fun _ _ => id) (fun _ => id) rfl hinv.done_le

/-! ## Steps of a worker -/

/-- What a worker finds out by moving. -/
theorem History.phaseMove (h : History s) (hw : s.workers w = a)
    (hmove : PhaseMove s a b) : WorkerInv s b := by
  have hi := h.workers w
  rw [hw] at hi
  cases hmove with
  | finish hchannel hsender => exact ⟨hsender, hchannel⟩
  | skip hcancelled | cancelled hcancelled =>
    intro hnot
    rw [hnot] at hcancelled
    contradiction
  | start hjob =>
    intro hb
    rw [hb] at hjob
    contradiction
  | behind hlt => exact hlt
  | reached hle => exact .inl hle
  | giveUp hcancelled => exact .inr hcancelled
  | wait | sleep => exact hi
  | @pass job hcancelled =>
    intro _ job' hjob' hid
    have hle : job.id - 1 ≤ s.progress.completedThrough := by
      refine hi.resolve_right fun hc => ?_
      rw [hcancelled] at hc
      contradiction
    have hdone : Done s.progress job'.id := .inl (by omega)
    exact ⟨h.honest hcancelled job' hjob' hdone, hdone⟩
  | _ => trivial

theorem PhaseMove.ne_complete (h : PhaseMove s a b) : a ≠ .complete job := by
  rintro rfl
  cases h

/-- The worker moves, and nothing that anybody knows of changes. -/
theorem History.move (h : History s) (hinv : PushInv s) (hl : Later s t) (hw : s.workers w = a)
    (ha : ∀ job, a ≠ .complete job) (hb : WorkerInv t b)
    (hworkers : t.workers = Function.update s.workers w b) (haccepted : t.accepted = s.accepted)
    (hexecuted : t.executed = s.executed) : History t := by
  refine h.later hinv hl ?_ ?_ (fun job hjob => haccepted ▸ hjob) hexecuted hinv.done_le
  · intro v
    rw [hworkers]
    by_cases hv : v = w
    · subst hv
      rw [Function.update_self]
      exact .inr hb
    · rw [Function.update_of_ne hv]
      exact .inl rfl
  · intro v job hv
    rw [hworkers, Function.update_of_ne]
    · exact hv
    · rintro rfl
      exact ha job (hw.symm.trans hv)

theorem History.run (h : History s) (hinv : PushInv s) (hw : s.workers w = .run job) :
    History { s.setWorker w (.complete job) with executed := s.executed ++ [job] } := by
  have hjob : inHand (s.workers w) = some job := by
    rw [hw]
    rfl
  have hheld := hinv.holding.held w job hjob
  have hlater : Later s { s.setWorker w (.complete job) with executed := s.executed ++ [job] } :=
    ⟨rfl, id, fun _ => .inl, fun _ => List.mem_append_left _, fun hs hc => ⟨hs, hc⟩⟩
  constructor
  · intro v
    show WorkerInv _ (Function.update s.workers w _ v)
    by_cases hv : v = w
    · subst hv
      rw [Function.update_self]
      exact fun _ => List.mem_append_right _ List.mem_cons_self
    · rw [Function.update_of_ne hv]
      exact hlater.workerInv (fun job => hinv.inHand_le v) (h.workers v)
  · intro job' hjob'
    rcases List.mem_append.1 hjob' with hold | hnew
    · obtain ⟨hmem, hdone⟩ := h.executed job' hold
      refine ⟨hmem, hdone.imp_right fun ⟨v, hv⟩ => ⟨v, ?_⟩⟩
      show Function.update s.workers w _ v = _
      rw [Function.update_of_ne]
      · exact hv
      · rintro rfl
        rw [hw] at hv
        contradiction
    · rw [List.mem_singleton.1 hnew]
      exact ⟨hheld.1, .inr ⟨w, Function.update_self ..⟩⟩
  · -- had it been run before, it would be done or in the hands of another worker
    refine List.nodup_append.2 ⟨h.nodup, List.nodup_singleton job, ?_⟩
    rintro job' hold _ hnew rfl
    rw [List.mem_singleton.1 hnew] at hold
    rcases (h.executed job hold).2 with hdone | ⟨v, hv⟩
    · exact hheld.2.2 hdone
    · have hvw : v = w := hinv.holding.distinct v w job job (by rw [hv]; rfl) hjob rfl
      rw [hvw, hw] at hv
      contradiction
  · intro job' hjob' hb
    rcases List.mem_append.1 hjob' with hold | hnew
    · exact hlater.cleared (h.barriers job' hold hb)
        (hinv.admission.mem_accepted (h.executed job' hold).1).2.1
    · have hi := h.workers w
      rw [hw] at hi
      rw [List.mem_singleton.1 hnew] at hb ⊢
      exact hlater.cleared (hi hb) (hinv.inHand_le w hjob)
  · intro hc job' hjob' hdone
    exact List.mem_append_left _ (h.honest hc job' hjob' hdone)

theorem History.complete (h : History s) (hinv : PushInv s) (hw : s.workers w = .complete job)
    (hlock : s.progressLock = none) :
    History ((s.markJobComplete job.id).setWorker w .lockReceiver) := by
  have hjob : inHand (s.workers w) = some job := by
    rw [hw]
    rfl
  have hcleared {job' : PushJob} (hc : Cleared s job') :
      Cleared ((s.markJobComplete job.id).setWorker w .lockReceiver) job' := by
    intro job'' hjob'' hid
    obtain ⟨hexecuted, hdone⟩ := hc job'' hjob'' hid
    exact ⟨hexecuted, (done_markJobComplete s.progress job.id job''.id).2 (.inl hdone)⟩
  constructor
  · intro v
    show WorkerInv _ (Function.update (fun v => (s.workers v).wake) w _ v)
    by_cases hv : v = w
    · subst hv
      rw [Function.update_self]
      trivial
    · rw [Function.update_of_ne hv]
      -- nobody is inside the section of the progress lock, and the sleepers are woken
      have hout : inProgress (s.workers v) ≠ true := (hlock ▸ hinv.locks.progress).outside
      have hi := h.workers v
      revert hi hout
      cases s.workers v with
      | loopCancelled | wait | leave => exact fun hout _ => absurd rfl hout
      | run job' => exact fun _ hi hb => hcleared (hi hb)
      | complete job' => exact fun _ hi hc => hi hc
      | ended => exact fun _ hi => hi
      | _ => exact fun _ _ => trivial
  · intro job' hjob'
    obtain ⟨hmem, hdone⟩ := h.executed job' hjob'
    refine ⟨hmem, ?_⟩
    show Done (s.progress.markJobComplete job.id) job'.id ∨ _
    rw [done_markJobComplete]
    rcases hdone with hdone | ⟨v, hv⟩
    · exact .inl (.inl hdone)
    · by_cases hvw : v = w
      · rw [hvw, hw] at hv
        cases hv
        exact .inl (.inr rfl)
      · refine .inr ⟨v, ?_⟩
        show Function.update (fun v => (s.workers v).wake) w _ v = _
        rw [Function.update_of_ne hvw, hv]
        rfl
  · exact h.nodup
  · exact fun job' hjob' hb => hcleared (h.barriers job' hjob' hb)
  · intro hc job' hjob' hdone
    rcases (done_markJobComplete s.progress job.id job'.id).1 hdone with hdone | hid
    · exact h.honest hc job' hjob' hdone
    · have hi := h.workers w
      rw [hw] at hi
      rw [hinv.admission.eq_of_id hjob' (hinv.holding.held w job hjob).1 hid]
      exact hi hc

theorem History.worker (h : History s) (hinv : PushInv s) (he : WorkerEffect s w t) :
    History t := by
  cases he with
  | @move a b receiver progressLock hw hmove =>
    have hlater : Later s { s.setWorker w b with
        receiver := receiver, progressLock := progressLock } :=
      ⟨rfl, id, fun _ => .inl, fun _ => id, fun hs hc => ⟨hs, hc⟩⟩
    refine h.move hinv hlater hw (fun job => hmove.ne_complete) ?_ rfl rfl rfl
    have hb := h.phaseMove hw hmove
    exact hlater.workerInv (fun job hjob => hinv.inHand_le w (by rw [hw, ← hmove.inHand, hjob])) hb
  | @recv job _ hw hchannel =>
    refine h.move (b := .subDepth job) hinv ⟨rfl, id, fun _ => .inl, fun _ => id, ?_⟩ hw (fun _ => nofun) trivial
      rfl rfl rfl
    intro _ hempty
    rw [hchannel] at hempty
    contradiction
  | @subDepth job hw =>
    exact h.move (b := .checkCancelled job) hinv
      ⟨rfl, id, fun _ => .inl, fun _ => id, fun hs hc => ⟨hs, hc⟩⟩ hw (fun _ => nofun) trivial
      rfl rfl rfl
  | run hw => exact h.run hinv hw
  | complete hw hlock => exact h.complete hinv hw hlock

/-! ## Every step -/

theorem WorkerInv.wake (h : WorkerInv s a) : WorkerInv s a.wake := by
  cases a with
  | sleep => trivial
  | _ => exact h

variable {capacity : Nat} {l : PushStep m n}

theorem History.step (h : History s) (hinv : PushInv s) (he : Effect s l t) : History t := by
  cases he with
  | enqueue he => exact h.producer hinv he
  | producer he => exact h.producer hinv he
  | worker he => exact h.worker hinv he
  | close =>
    exact h.later hinv ⟨rfl, id, fun _ => .inl, fun _ => id, fun _ hc => ⟨rfl, hc⟩⟩
      (fun _ => .inl rfl) (fun _ _ => id) (fun _ => id) rfl hinv.done_le
  | cancel =>
    exact h.later hinv ⟨rfl, nofun, fun _ => .inl, fun _ => id, fun hs hc => ⟨hs, hc⟩⟩
      (fun _ => .inl rfl) (fun _ _ => id) (fun _ => id) rfl hinv.done_le
  | notifyAll =>
    refine h.later hinv ⟨rfl, id, fun _ => .inl, fun _ => id, fun hs hc => ⟨hs, hc⟩⟩
      (fun v => .inr ?_) ?_ (fun _ => id) rfl hinv.done_le
    · exact (h.workers v).wake
    · intro v job hv
      show (s.workers v).wake = _
      rw [hv]
      rfl
  | wake he => exact h.worker hinv he
  | spurious => exact h

structure OrderInv (s : PushQueue m n) : Prop extends PushInv s where
  history : History s

theorem OrderInv.of_reachable (h : Reachable (pushQueue m n capacity) s) : OrderInv s := by
  refine h.invariant (fun _ hinit => hinit ▸ ⟨.initial, .initial capacity⟩) ?_
  intro s l t _ hinv _ hstep
  have he := step_effect hstep
  exact ⟨hinv.toPushInv.step he, hinv.history.step hinv.toPushInv he⟩

end Luchta.Proof.Remote
