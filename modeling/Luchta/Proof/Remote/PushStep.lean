import Luchta.Impl.PushQueue

/-!
# Steps of the push queue

* `workerStep_effect`, `producerStep_effect`: what a step of a worker or of a producer does.
* `done_markJobComplete`: completing a job adds it to those that are done, and nothing else.
* `markJobComplete_stops`: the watermark then stands before the first job that is not done.
-/

namespace Luchta.Proof.Remote

open Luchta.Framework Luchta.Impl

variable {m n : Nat} {s t : PushQueue m n} {w v : Fin n} {p q : Fin m}

/-! ## Projections of the phases -/

/-- Inside the section that the sender's lock guards. -/
def admitting : ProducerPhase → Bool
  | .sender _ | .loadDepth _ | .takeId _ | .addDepth _ | .send _ => true
  | _ => false

/-- A job that has its number and is not sent yet. -/
def numbered : ProducerPhase → Option PushJob
  | .addDepth job | .send job => some job
  | _ => none

def numbering (a : ProducerPhase) : Nat := if (numbered a).isSome then 1 else 0

/-- Counted in the depth and not sent yet. -/
def sending : ProducerPhase → Nat
  | .send _ => 1
  | _ => 0

/-- The producer found the sender there. -/
def hasSender : ProducerPhase → Bool
  | .loadDepth _ | .takeId _ | .addDepth _ | .send _ => true
  | _ => false

/-- The producer found room, and has not used it yet. -/
def hasRoom : ProducerPhase → Bool
  | .takeId _ | .addDepth _ => true
  | _ => false

/-- The job in the hands of a worker. -/
def inHand : WorkerPhase → Option PushJob
  | .subDepth job | .checkCancelled job | .lockProgress job | .loopThrough job | .loopCancelled job
  | .wait job | .sleep job | .woken job | .leave job | .run job | .complete job => some job
  | _ => none

/-- Received and still counted in the depth. -/
def counting : WorkerPhase → Nat
  | .subDepth _ => 1
  | _ => 0

def inProgress : WorkerPhase → Bool
  | .loopThrough _ | .loopCancelled _ | .wait _ | .leave _ => true
  | _ => false

@[simp] theorem inHand_wake (a : WorkerPhase) : inHand a.wake = inHand a := by
  cases a with
  | _ => rfl

@[simp] theorem counting_wake (a : WorkerPhase) : counting a.wake = counting a := by
  cases a with
  | _ => rfl

@[simp] theorem inProgress_wake (a : WorkerPhase) : inProgress a.wake = inProgress a := by
  cases a with
  | _ => rfl

theorem wake_eq_recv {a : WorkerPhase} : a.wake = .recv ↔ a = .recv := by
  cases a with
  | sleep => exact iff_of_false nofun nofun
  | _ => exact Iff.rfl

/-! ## What a worker does -/

/-- The steps that change nothing but the worker's own phase and who holds the locks. -/
inductive PhaseMove (s : PushQueue m n) : WorkerPhase → WorkerPhase → Prop
  | lockReceiver : PhaseMove s .lockReceiver .recv
  | finish (hchannel : s.channel = []) (hsender : s.sender = false) : PhaseMove s .recv .ended
  | skip {job : PushJob} (hcancelled : s.cancelled = true) :
    PhaseMove s (.checkCancelled job) (.complete job)
  | start {job : PushJob} (hjob : job.message.mayRunConcurrently = true) :
    PhaseMove s (.checkCancelled job) (.run job)
  | barrier {job : PushJob} : PhaseMove s (.checkCancelled job) (.lockProgress job)
  | lockProgress {job : PushJob} : PhaseMove s (.lockProgress job) (.loopThrough job)
  | relock {job : PushJob} : PhaseMove s (.woken job) (.loopThrough job)
  | behind {job : PushJob} (h : s.progress.completedThrough < job.id - 1) :
    PhaseMove s (.loopThrough job) (.loopCancelled job)
  | reached {job : PushJob} (h : job.id - 1 ≤ s.progress.completedThrough) :
    PhaseMove s (.loopThrough job) (.leave job)
  | giveUp {job : PushJob} (hcancelled : s.cancelled = true) :
    PhaseMove s (.loopCancelled job) (.leave job)
  | wait {job : PushJob} : PhaseMove s (.loopCancelled job) (.wait job)
  | sleep {job : PushJob} : PhaseMove s (.wait job) (.sleep job)
  | wake {job : PushJob} : PhaseMove s (.sleep job) (.woken job)
  | cancelled {job : PushJob} (hcancelled : s.cancelled = true) :
    PhaseMove s (.leave job) (.complete job)
  | pass {job : PushJob} (hcancelled : s.cancelled = false) : PhaseMove s (.leave job) (.run job)

inductive WorkerEffect (s : PushQueue m n) (w : Fin n) : PushQueue m n → Prop
  | move {a b : WorkerPhase} {receiver progressLock : Option (Fin n)} (hw : s.workers w = a)
    (h : PhaseMove s a b) (hreceiver : Owns.Crosses s.receiver w (a = .recv) (b = .recv) receiver)
    (hprogress :
      Owns.Crosses s.progressLock w (inProgress a = true) (inProgress b = true) progressLock) :
    WorkerEffect s w { s.setWorker w b with receiver := receiver, progressLock := progressLock }
  | recv {job : PushJob} {channel : List PushJob} (hw : s.workers w = .recv)
    (hchannel : s.channel = job :: channel) :
    WorkerEffect s w { s.setWorker w (.subDepth job) with receiver := none, channel := channel }
  | subDepth {job : PushJob} (hw : s.workers w = .subDepth job) :
    WorkerEffect s w { s.setWorker w (.checkCancelled job) with depth := s.depth - 1 }
  | run {job : PushJob} (hw : s.workers w = .run job) :
    WorkerEffect s w { s.setWorker w (.complete job) with executed := s.executed ++ [job] }
  | complete {job : PushJob} (hw : s.workers w = .complete job) (hlock : s.progressLock = none) :
    WorkerEffect s w ((s.markJobComplete job.id).setWorker w .lockReceiver)

/-- A step outside the section, and one inside it. -/
private theorem outside {ι : Type*} {owner : Option ι} {i : ι} {a b : Prop} (ha : ¬ a := by nofun)
    (hb : ¬ b := by nofun) : Owns.Crosses owner i a b owner :=
  .keep (iff_of_false hb ha)

private theorem inside {ι : Type*} {owner : Option ι} {i : ι} {a b : Prop} (ha : a := by rfl)
    (hb : b := by rfl) : Owns.Crosses owner i a b owner :=
  .keep (iff_of_true hb ha)

theorem workerStep_effect (h : s.workerStep w = some t) : WorkerEffect s w t := by
  unfold PushQueue.workerStep at h
  split at h
  case h_1 hw =>
    split at h
    · rename_i hfree
      cases h
      exact .move hw .lockReceiver (.acquire hfree rfl) outside
    · contradiction
  case h_2 hw =>
    split at h
    · rename_i hchannel
      cases h
      exact .recv hw hchannel
    · rename_i hchannel
      split at h
      · contradiction
      · rename_i hsender
        cases h
        exact .move hw (.finish hchannel (Bool.eq_false_iff.2 hsender)) (.release rfl nofun) outside
  case h_3 job hw =>
    cases h
    exact .subDepth hw
  case h_4 job hw =>
    cases h
    split
    · rename_i hcancelled
      exact .move hw (.skip hcancelled) outside outside
    · split
      · rename_i hjob
        exact .move hw (.start hjob) outside outside
      · exact .move hw .barrier outside outside
  case h_5 job hw =>
    split at h
    · rename_i hfree
      cases h
      exact .move hw .lockProgress outside (.acquire hfree rfl)
    · contradiction
  case h_6 job hw =>
    split at h
    · rename_i hfree
      cases h
      exact .move hw .relock outside (.acquire hfree rfl)
    · contradiction
  case h_7 job hw =>
    cases h
    split
    · rename_i hbehind
      exact .move hw (.behind hbehind) outside inside
    · rename_i hreached
      exact .move hw (.reached (Nat.le_of_not_lt hreached)) outside inside
  case h_8 job hw =>
    cases h
    split
    · rename_i hcancelled
      exact .move hw (.giveUp hcancelled) outside inside
    · exact .move hw .wait outside inside
  case h_9 job hw =>
    cases h
    exact .move hw .sleep outside (.release rfl nofun)
  case h_10 => contradiction
  case h_11 job hw =>
    cases h
    split
    · rename_i hcancelled
      exact .move hw (.cancelled hcancelled) outside (.release rfl nofun)
    · rename_i hcancelled
      exact .move hw (.pass (Bool.eq_false_iff.2 hcancelled)) outside (.release rfl nofun)
  case h_12 job hw =>
    cases h
    exact .run hw
  case h_13 job hw =>
    split at h
    · rename_i hlock
      cases h
      exact .complete hw hlock
    · contradiction
  case h_14 => contradiction

theorem wake_effect (s : PushQueue m n) (w : Fin n) :
    s.wake w = s ∨ WorkerEffect s w (s.wake w) := by
  unfold PushQueue.wake
  cases hw : s.workers w with
  | sleep job => exact .inr (.move hw .wake outside outside)
  | _ =>
    left
    show { s with workers := Function.update s.workers w _ } = s
    rw [WorkerPhase.wake, ← hw, Function.update_eq_self]
    nofun

theorem PhaseMove.inHand {a b : WorkerPhase} (h : PhaseMove s a b) : inHand b = inHand a := by
  cases h with
  | _ => rfl

theorem PhaseMove.counting {a b : WorkerPhase} (h : PhaseMove s a b) :
    counting b = counting a := by
  cases h with
  | _ => rfl

/-! ## What a producer does -/

/-- The steps that change nothing but the producer's own phase and who holds the sender's lock. -/
inductive Producing (s : PushQueue m n) : ProducerPhase → ProducerPhase → Prop
  | request {message : PushMsg} : Producing s .idle (.checkCancelled message)
  | refuse {message : PushMsg} : Producing s (.checkCancelled message) .idle
  | begin {message : PushMsg} : Producing s (.checkCancelled message) (.lock message)
  | lock {message : PushMsg} : Producing s (.lock message) (.sender message)
  | isClosed {message : PushMsg} : Producing s (.sender message) .idle
  | isOpen {message : PushMsg} (hsender : s.sender = true) :
    Producing s (.sender message) (.loadDepth message)
  | full {message : PushMsg} : Producing s (.loadDepth message) .idle
  | room {message : PushMsg} (h : s.depth < s.capacity) :
    Producing s (.loadDepth message) (.takeId message)

inductive ProducerEffect (s : PushQueue m n) (p : Fin m) : PushQueue m n → Prop
  | move {a b : ProducerPhase} {tx : Option (Fin m)} (hp : s.producers p = a)
    (h : Producing s a b)
    (htx : Owns.Crosses s.tx p (admitting a = true) (admitting b = true) tx) :
    ProducerEffect s p { s.setProducer p b with tx := tx }
  | takeId {message : PushMsg} (hp : s.producers p = .takeId message) :
    ProducerEffect s p { s.setProducer p (.addDepth ⟨s.nextJobId + 1, message⟩) with
      nextJobId := s.nextJobId + 1 }
  | addDepth {job : PushJob} (hp : s.producers p = .addDepth job) :
    ProducerEffect s p { s.setProducer p (.send job) with depth := s.depth + 1 }
  | send {job : PushJob} (hp : s.producers p = .send job) :
    ProducerEffect s p { s.setProducer p .idle with
      tx := none
      channel := s.channel ++ [job]
      accepted := s.accepted ++ [job] }

theorem enqueuePush_effect {message : PushMsg} (h : s.enqueuePush p message = some t) :
    ProducerEffect s p t := by
  unfold PushQueue.enqueuePush at h
  split at h
  · rename_i hp
    cases h
    exact .move hp .request outside
  · contradiction

theorem producerStep_effect (h : s.producerStep p = some t) : ProducerEffect s p t := by
  unfold PushQueue.producerStep at h
  split at h
  case h_1 => contradiction
  case h_2 message hp =>
    cases h
    split
    · exact .move hp .refuse outside
    · exact .move hp .begin outside
  case h_3 message hp =>
    split at h
    · rename_i hfree
      cases h
      exact .move hp .lock (.acquire hfree rfl)
    · contradiction
  case h_4 message hp =>
    split at h
    · rename_i hsender
      cases h
      exact .move hp (.isOpen hsender) inside
    · cases h
      exact .move hp .isClosed (.release rfl nofun)
  case h_5 message hp =>
    split at h
    · cases h
      exact .move hp .full (.release rfl nofun)
    · rename_i hroom
      cases h
      exact .move hp (.room (Nat.lt_of_not_le hroom)) inside
  case h_6 message hp =>
    cases h
    exact .takeId hp
  case h_7 job hp =>
    cases h
    exact .addDepth hp
  case h_8 job hp =>
    cases h
    exact .send hp

theorem Producing.numbered {a b : ProducerPhase} (h : Producing s a b) :
    numbered a = none ∧ numbered b = none := by
  cases h with
  | _ => exact ⟨rfl, rfl⟩

theorem Producing.numbering {a b : ProducerPhase} (h : Producing s a b) :
    numbering a = 0 ∧ numbering b = 0 := by
  cases h with
  | _ => exact ⟨rfl, rfl⟩

theorem Producing.sending {a b : ProducerPhase} (h : Producing s a b) :
    sending a = 0 ∧ sending b = 0 := by
  cases h with
  | _ => exact ⟨rfl, rfl⟩

/-! ## Every step -/

/-- What a step does, by whose step it is. -/
inductive Effect (s : PushQueue m n) : PushStep m n → PushQueue m n → Prop
  | enqueue {p : Fin m} {message : PushMsg} {t : PushQueue m n} (h : ProducerEffect s p t) :
    Effect s (.enqueue p message) t
  | producer {p : Fin m} {t : PushQueue m n} (h : ProducerEffect s p t) :
    Effect s (.producer p) t
  | worker {w : Fin n} {t : PushQueue m n} (h : WorkerEffect s w t) : Effect s (.worker w) t
  | close (hfree : s.tx = none) : Effect s .close { s with sender := false }
  | cancel : Effect s .cancel { s with cancelled := true }
  | notifyAll : Effect s .notifyAll s.notifyAll
  | wake {w : Fin n} {t : PushQueue m n} (h : WorkerEffect s w t) : Effect s (.wake w) t
  | spurious {w : Fin n} : Effect s (.wake w) s

theorem step_effect {capacity : Nat} {l : PushStep m n}
    (h : (pushQueue m n capacity).step s l = some t) : Effect s l t := by
  cases l with
  | enqueue p message => exact .enqueue (enqueuePush_effect h)
  | producer p => exact .producer (producerStep_effect h)
  | worker w => exact .worker (workerStep_effect h)
  | close =>
    change s.close = some t at h
    unfold PushQueue.close at h
    split at h
    · rename_i hfree
      cases h
      exact .close hfree
    · contradiction
  | cancel =>
    cases h
    exact .cancel
  | notifyAll =>
    cases h
    exact .notifyAll
  | wake w =>
    cases h
    rcases wake_effect s w with heq | he
    · rw [heq]
      exact .spurious
    · exact .wake he

/-! ## The jobs that are done -/

/-- The progress has the job among those that are complete. -/
def Done (progress : PushProgress) (id : Nat) : Prop :=
  id ≤ progress.completedThrough ∨ id ∈ progress.completedOutOfOrder

theorem done_advance (fuel : Nat) (progress : PushProgress) (id : Nat) :
    Done (.advance fuel progress) id ↔ Done progress id := by
  induction fuel generalizing progress with
  | zero => rfl
  | succ fuel ih =>
    rw [PushProgress.advance]
    split
    · rename_i hnext
      rw [ih]
      unfold Done
      rw [Finset.mem_erase]
      by_cases hid : id = progress.completedThrough + 1
      · subst hid
        exact iff_of_true (.inl le_rfl) (.inr hnext)
      · simp only [Nat.le_add_one_iff]
        tauto
    · rfl

/-- The loop has as many rounds as it can take. -/
theorem advance_stops {fuel : Nat} {progress : PushProgress}
    (h : progress.completedOutOfOrder.card ≤ fuel) :
    (PushProgress.advance fuel progress).completedThrough + 1 ∉
      (PushProgress.advance fuel progress).completedOutOfOrder := by
  induction fuel generalizing progress with
  | zero =>
    show _ ∉ progress.completedOutOfOrder
    rw [Finset.card_eq_zero.1 (Nat.le_zero.1 h)]
    exact Finset.notMem_empty _
  | succ fuel ih =>
    rw [PushProgress.advance]
    split
    · rename_i hnext
      apply ih
      show (progress.completedOutOfOrder.erase _).card ≤ fuel
      rw [Finset.card_erase_of_mem hnext]
      omega
    · rename_i hnext
      exact hnext

theorem done_markJobComplete (progress : PushProgress) (id id' : Nat) :
    Done (progress.markJobComplete id) id' ↔ Done progress id' ∨ id' = id := by
  unfold PushProgress.markJobComplete
  rw [done_advance]
  show (_ ∨ id' ∈ Insert.insert id progress.completedOutOfOrder) ↔ _
  rw [Finset.mem_insert]
  unfold Done
  tauto

theorem markJobComplete_stops (progress : PushProgress) (id : Nat) :
    (progress.markJobComplete id).completedThrough + 1 ∉
      (progress.markJobComplete id).completedOutOfOrder :=
  advance_stops le_rfl

end Luchta.Proof.Remote
