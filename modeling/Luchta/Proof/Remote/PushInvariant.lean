import Luchta.Proof.Remote.PushStep

/-!
# The push queue's invariant

* `Locks`: each lock is held by the thread that is inside.
* `Admission`: jobs are numbered in the order in which they are accepted, and the depth counter
  counts those that no worker has counted out.
* `Holding`: every job that was taken is either done or in the hands of one worker.
* `PushInv.step`: every step keeps all of it.
-/

namespace Luchta.Proof.Remote

open Luchta.Framework Luchta.Impl

variable {m n : Nat} {s t : PushQueue m n} {w v : Fin n} {p q : Fin m} {job : PushJob}

/-! ## Locks -/

structure Locks (s : PushQueue m n) : Prop where
  tx : Owns s.tx fun p => admitting (s.producers p) = true
  receiver : Owns s.receiver fun w => s.workers w = .recv
  progress : Owns s.progressLock fun w => inProgress (s.workers w) = true

theorem Locks.producer (h : Locks s) (he : ProducerEffect s p t) : Locks t := by
  have hkeep {a : ProducerPhase} (ha : admitting a = admitting (s.producers p)) :
      Owns s.tx fun q => admitting (Function.update s.producers p a q) = true :=
    h.tx.cross (P := fun a => admitting a = true) (.keep (by rw [ha]))
  cases he with
  | move hp _ htx => exact { h with tx := h.tx.cross (P := fun a => admitting a = true) (hp ▸ htx) }
  | takeId hp => exact { h with tx := hkeep (by rw [hp]; rfl) }
  | addDepth hp => exact { h with tx := hkeep (by rw [hp]; rfl) }
  | send hp =>
    refine { h with tx := h.tx.cross (P := fun a => admitting a = true) (.release ?_ nofun) }
    show admitting _ = true
    rw [hp]
    rfl

theorem Locks.wakeAll (h : Locks s) (hworkers : ∀ v, t.workers v = (s.workers v).wake)
    (hreceiver : t.receiver = s.receiver) (hprogress : t.progressLock = s.progressLock)
    (hproducers : t.producers = s.producers) (htx : t.tx = s.tx) : Locks t where
  tx := by rw [htx, hproducers]; exact h.tx
  receiver := by
    rw [hreceiver]
    exact h.receiver.congr fun v => by rw [hworkers]; exact wake_eq_recv
  progress := by
    rw [hprogress]
    exact h.progress.congr fun v => by rw [hworkers, inProgress_wake]

theorem Locks.notifyAll (h : Locks s) : Locks s.notifyAll :=
  h.wakeAll (fun _ => rfl) rfl rfl rfl rfl

theorem Locks.worker (h : Locks s) (he : WorkerEffect s w t) : Locks t := by
  have hreceiver {u : PushQueue m n} {a : WorkerPhase} (h : Locks u) (hw : u.workers w ≠ .recv)
      (ha : a ≠ .recv) : Owns u.receiver fun v => Function.update u.workers w a v = .recv :=
    h.receiver.cross (P := fun a => a = WorkerPhase.recv) (.keep (iff_of_false ha hw))
  have hprogress {u : PushQueue m n} {a : WorkerPhase} (h : Locks u)
      (ha : inProgress a = inProgress (u.workers w)) :
      Owns u.progressLock fun v => inProgress (Function.update u.workers w a v) = true :=
    h.progress.cross (P := fun a => inProgress a = true) (.keep (by rw [ha]))
  cases he with
  | move hw _ hr hp =>
    exact ⟨h.tx, h.receiver.cross (P := fun a => a = WorkerPhase.recv) (hw ▸ hr),
      h.progress.cross (P := fun a => inProgress a = true) (hw ▸ hp)⟩
  | recv hw =>
    exact ⟨h.tx, h.receiver.cross (P := fun a => a = WorkerPhase.recv) (.release hw nofun),
      hprogress h (by rw [hw]; rfl)⟩
  | subDepth hw =>
    exact ⟨h.tx, hreceiver h (hw ▸ nofun) nofun, hprogress h (by rw [hw]; rfl)⟩
  | run hw => exact ⟨h.tx, hreceiver h (hw ▸ nofun) nofun, hprogress h (by rw [hw]; rfl)⟩
  | @complete job hw =>
    have hall : Locks (s.markJobComplete job.id) :=
      h.wakeAll (fun _ => rfl) rfl rfl rfl rfl
    have hphase : (s.markJobComplete job.id).workers w = .complete job := by
      show (s.workers w).wake = _
      rw [hw]
      rfl
    exact ⟨hall.tx, hreceiver hall (hphase ▸ nofun) nofun, hprogress hall (by rw [hphase]; rfl)⟩

/-- The producer that is inside is the only one. -/
theorem Locks.only (h : Locks s) (hp : admitting (s.producers p) = true) (hq : q ≠ p) :
    admitting (s.producers q) = false :=
  Bool.eq_false_iff.2 fun hq' => hq (h.tx.unique hq' hp)

/-! ## Admission -/

theorem admitting_of_numbered {a : ProducerPhase} (h : numbered a = some job) :
    admitting a = true := by
  cases a with
  | addDepth | send => rfl
  | _ => contradiction

theorem admitting_of_hasRoom {a : ProducerPhase} (h : hasRoom a = true) : admitting a = true := by
  cases a with
  | takeId | addDepth => rfl
  | _ => contradiction

theorem admitting_of_hasSender {a : ProducerPhase} (h : hasSender a = true) :
    admitting a = true := by
  cases a with
  | loadDepth | takeId | addDepth | send => rfl
  | _ => contradiction

structure Admission (s : PushQueue m n) : Prop where
  sender : ∀ p, hasSender (s.producers p) = true → s.sender = true
  nextJobId : s.nextJobId = s.accepted.length + ∑ p, numbering (s.producers p)
  number : ∀ p job, numbered (s.producers p) = some job → job.id = s.accepted.length + 1
  ids : ∀ i job, s.accepted[i]? = some job → job.id = i + 1
  depth : s.depth =
    s.channel.length + ∑ p, sending (s.producers p) + ∑ w, counting (s.workers w)
  room : ∀ p, hasRoom (s.producers p) = true → s.depth < s.capacity
  bound : s.depth ≤ s.capacity

theorem Admission.initial (capacity : Nat) : Admission (PushQueue.initial m n capacity) where
  sender _ _ := rfl
  nextJobId := by simp [PushQueue.initial, numbering, numbered]
  number _ _ h := nomatch h
  ids _ _ h := nomatch h
  depth := by simp [PushQueue.initial, sending, counting]
  room _ h := nomatch h
  bound := Nat.zero_le _

theorem numbering_eq_zero (hl : Locks s) (hp : admitting (s.producers p) = true)
    (hn : numbered (s.producers p) = none) : ∑ q, numbering (s.producers q) = 0 := by
  apply Finset.sum_eq_zero
  intro q _
  unfold numbering
  rw [if_neg]
  intro hq
  obtain ⟨job, hjob⟩ := Option.isSome_iff_exists.1 hq
  by_cases hqp : q = p
  · rw [hqp, hn] at hjob
    contradiction
  · have hout := hl.only hp hqp
    rw [admitting_of_numbered hjob] at hout
    contradiction

variable {a b : ProducerPhase}

theorem Admission.producing {tx : Option (Fin m)} (h : Admission s) (hp : s.producers p = a)
    (hmove : Producing s a b) : Admission { s.setProducer p b with tx := tx } where
  sender := by
    apply forall_update (fun a => hasSender a = true → s.sender = true) _ fun q _ => h.sender q
    have hsender := h.sender p
    rw [hp] at hsender
    cases hmove with
    | isOpen hopen => exact fun _ => hopen
    | room => exact fun _ => hsender rfl
    | _ => exact nofun
  nextJobId := by
    have hsum := sum_update numbering s.producers p b
    rw [hp, hmove.numbering.1, hmove.numbering.2] at hsum
    exact h.nextJobId.trans (congrArg _ hsum.symm)
  number := by
    apply forall_update (fun a => ∀ job, numbered a = some job → job.id = _) _ fun q _ => h.number q
    intro job hjob
    rw [hmove.numbered.2] at hjob
    contradiction
  ids := h.ids
  depth := by
    have hsum := sum_update sending s.producers p b
    rw [hp, hmove.sending.1, hmove.sending.2] at hsum
    exact h.depth.trans (by rw [← Nat.add_right_cancel hsum]; rfl)
  room := by
    apply forall_update (fun a => hasRoom a = true → s.depth < s.capacity) _ fun q _ => h.room q
    cases hmove with
    | room hroom => exact fun _ => hroom
    | _ => exact nofun
  bound := h.bound

theorem Admission.takeId {message : PushMsg} (h : Admission s) (hl : Locks s)
    (hp : s.producers p = .takeId message) :
    Admission { s.setProducer p (.addDepth ⟨s.nextJobId + 1, message⟩) with
      nextJobId := s.nextJobId + 1 } where
  sender := forall_update (fun a => hasSender a = true → s.sender = true)
    (fun _ => h.sender p (hp ▸ rfl)) fun q _ => h.sender q
  nextJobId := by
    have hsum := sum_update numbering s.producers p (.addDepth ⟨s.nextJobId + 1, message⟩)
    have hid := h.nextJobId
    rw [hp, show numbering (.takeId message) = 0 from rfl,
      show numbering (.addDepth ⟨s.nextJobId + 1, message⟩) = 1 from rfl] at hsum
    show s.nextJobId + 1 = s.accepted.length + ∑ q, numbering (Function.update s.producers p _ q)
    omega
  number := by
    apply forall_update (fun a => ∀ job, numbered a = some job → job.id = _) _ fun q _ => h.number q
    intro job hjob
    cases hjob
    show s.nextJobId + 1 = _
    have hzero := numbering_eq_zero hl (p := p) (hp ▸ rfl) (hp ▸ rfl)
    rw [h.nextJobId, hzero]
  ids := h.ids
  depth := by
    have hsum := sum_update sending s.producers p (.addDepth ⟨s.nextJobId + 1, message⟩)
    rw [hp] at hsum
    exact h.depth.trans (by rw [← Nat.add_right_cancel hsum]; rfl)
  room := forall_update (fun a => hasRoom a = true → s.depth < s.capacity)
    (fun _ => h.room p (hp ▸ rfl)) fun q _ => h.room q
  bound := h.bound

theorem Admission.addDepth (h : Admission s) (hl : Locks s) (hp : s.producers p = .addDepth job) :
    Admission { s.setProducer p (.send job) with depth := s.depth + 1 } where
  sender := forall_update (fun a => hasSender a = true → s.sender = true)
    (fun _ => h.sender p (hp ▸ rfl)) fun q _ => h.sender q
  nextJobId := by
    have hsum := sum_update numbering s.producers p (.send job)
    rw [hp] at hsum
    exact h.nextJobId.trans (congrArg _ (Nat.add_right_cancel hsum).symm)
  number := by
    apply forall_update (fun a => ∀ job, numbered a = some job → job.id = _) _ fun q _ => h.number q
    intro job' hjob
    cases hjob
    exact h.number p job (hp ▸ rfl)
  ids := h.ids
  depth := by
    have hsum := sum_update sending s.producers p (.send job)
    have hdepth := h.depth
    rw [hp, show sending (.addDepth job) = 0 from rfl, show sending (.send job) = 1 from rfl]
      at hsum
    show s.depth + 1 = s.channel.length + ∑ q, sending (Function.update s.producers p _ q) +
      ∑ w, counting (s.workers w)
    omega
  room := by
    apply forall_update (fun a => hasRoom a = true → s.depth + 1 < s.capacity)
      (show hasRoom (.send job) = true → _ from nofun)
    intro q hq hroom
    have hout := hl.only (hp ▸ rfl) hq
    rw [admitting_of_hasRoom hroom] at hout
    contradiction
  bound := h.room p (hp ▸ rfl)

theorem Admission.send (h : Admission s) (hl : Locks s) (hp : s.producers p = .send job) :
    Admission { s.setProducer p .idle with
      tx := none
      channel := s.channel ++ [job]
      accepted := s.accepted ++ [job] } where
  sender := forall_update (fun a => hasSender a = true → s.sender = true) nofun
    fun q _ => h.sender q
  nextJobId := by
    have hsum := sum_update numbering s.producers p .idle
    have hid := h.nextJobId
    rw [hp, show numbering (.send job) = 1 from rfl, show numbering .idle = 0 from rfl] at hsum
    show s.nextJobId = (s.accepted ++ [job]).length +
      ∑ q, numbering (Function.update s.producers p _ q)
    rw [List.length_append, List.length_singleton]
    omega
  number := by
    apply forall_update (fun a => ∀ job', numbered a = some job' → job'.id = _)
      (show ∀ job', numbered .idle = some job' → _ from nofun)
    intro q hq job' hjob
    have hout := hl.only (hp ▸ rfl) hq
    rw [admitting_of_numbered hjob] at hout
    contradiction
  ids := by
    intro i job' hi
    by_cases hlt : i < s.accepted.length
    · rw [List.getElem?_append_left hlt] at hi
      exact h.ids i job' hi
    · rw [List.getElem?_append_right (Nat.le_of_not_lt hlt)] at hi
      have hzero : i - s.accepted.length < 1 := (List.getElem?_eq_some_iff.1 hi).1
      have hjob := List.mem_singleton.1 (List.mem_of_getElem? hi)
      rw [hjob, h.number p job (hp ▸ rfl)]
      omega
  depth := by
    have hsum := sum_update sending s.producers p .idle
    have hdepth := h.depth
    rw [hp, show sending (.send job) = 1 from rfl, show sending .idle = 0 from rfl] at hsum
    show s.depth = (s.channel ++ [job]).length +
      ∑ q, sending (Function.update s.producers p _ q) + ∑ w, counting (s.workers w)
    rw [List.length_append, List.length_singleton]
    omega
  room := forall_update (fun a => hasRoom a = true → s.depth < s.capacity) nofun
    fun q _ => h.room q
  bound := h.bound

theorem Admission.producer (h : Admission s) (hl : Locks s) (he : ProducerEffect s p t) :
    Admission t := by
  cases he with
  | move hp hmove => exact h.producing hp hmove
  | takeId hp => exact h.takeId hl hp
  | addDepth hp => exact h.addDepth hl hp
  | send hp => exact h.send hl hp

/-- What is not a producer's keeps the admission if the depth counter follows what it counts. -/
theorem Admission.of_producers (h : Admission s) (hproducers : t.producers = s.producers)
    (hsender : t.sender = s.sender) (hnext : t.nextJobId = s.nextJobId)
    (haccepted : t.accepted = s.accepted) (hcapacity : t.capacity = s.capacity)
    (hdepth : t.depth ≤ s.depth)
    (hcount : t.depth + (s.channel.length + ∑ w, counting (s.workers w)) =
      s.depth + (t.channel.length + ∑ w, counting (t.workers w))) : Admission t where
  sender := by rw [hproducers, hsender]; exact h.sender
  nextJobId := by rw [hproducers, hnext, haccepted]; exact h.nextJobId
  number := by rw [hproducers, haccepted]; exact h.number
  ids := by rw [haccepted]; exact h.ids
  depth := by
    have := h.depth
    rw [hproducers]
    omega
  room := by
    rw [hproducers, hcapacity]
    exact fun p hp => hdepth.trans_lt (h.room p hp)
  bound := by rw [hcapacity]; exact hdepth.trans h.bound

theorem Admission.notifyAll (h : Admission s) : Admission s.notifyAll :=
  h.of_producers rfl rfl rfl rfl rfl le_rfl (by simp [PushQueue.notifyAll])

theorem Admission.worker (h : Admission s) (he : WorkerEffect s w t) : Admission t := by
  have hsum (a : WorkerPhase) := sum_update counting s.workers w a
  cases he with
  | @move a b _ _ hw hmove =>
    refine h.of_producers rfl rfl rfl rfl rfl le_rfl ?_
    have hsum := hsum b
    rw [hw, hmove.counting] at hsum
    rw [← Nat.add_right_cancel hsum]
    rfl
  | @recv job channel hw hchannel =>
    refine h.of_producers rfl rfl rfl rfl rfl le_rfl ?_
    have hsum := hsum (.subDepth job)
    rw [hw, show counting .recv = 0 from rfl, show counting (.subDepth job) = 1 from rfl] at hsum
    show s.depth + (s.channel.length + _) =
      s.depth + (channel.length + ∑ v, counting (Function.update s.workers w _ v))
    rw [hchannel, List.length_cons]
    omega
  | @subDepth job hw =>
    have hsum := hsum (.checkCancelled job)
    have hdepth := h.depth
    rw [hw, show counting (.subDepth job) = 1 from rfl,
      show counting (.checkCancelled job) = 0 from rfl] at hsum
    refine h.of_producers rfl rfl rfl rfl rfl (Nat.sub_le s.depth 1) ?_
    show s.depth - 1 + (s.channel.length + _) =
      s.depth + (s.channel.length + ∑ v, counting (Function.update s.workers w _ v))
    omega
  | @run job hw =>
    refine h.of_producers rfl rfl rfl rfl rfl le_rfl ?_
    have hsum := hsum (.complete job)
    rw [hw] at hsum
    rw [← Nat.add_right_cancel hsum]
    rfl
  | @complete job hw =>
    refine h.of_producers rfl rfl rfl rfl rfl le_rfl ?_
    have hsum := sum_update counting (fun v => (s.workers v).wake) w .lockReceiver
    rw [hw] at hsum
    simp only [counting_wake] at hsum
    rw [← Nat.add_right_cancel hsum]
    rfl

/-! ## The jobs that were taken -/

/-- How many accepted jobs have left the channel. -/
def taken (s : PushQueue m n) : Nat := s.accepted.length - s.channel.length

structure Holding (s : PushQueue m n) : Prop where
  suffix : s.channel <:+ s.accepted
  held : ∀ w job, inHand (s.workers w) = some job →
    job ∈ s.accepted ∧ job.id ≤ taken s ∧ ¬ Done s.progress job.id
  distinct : ∀ v w job job', inHand (s.workers v) = some job → inHand (s.workers w) = some job' →
    job.id = job'.id → v = w
  covered : ∀ id, 1 ≤ id → id ≤ taken s →
    Done s.progress id ∨ ∃ w job, inHand (s.workers w) = some job ∧ job.id = id
  done : ∀ id, Done s.progress id → id ≤ taken s
  watermark : s.progress.completedThrough + 1 ∉ s.progress.completedOutOfOrder

theorem Holding.initial (capacity : Nat) : Holding (PushQueue.initial m n capacity) where
  suffix := List.suffix_rfl
  held _ _ h := nomatch h
  distinct _ _ _ _ h := nomatch h
  covered id hid hle := by
    change id ≤ 0 at hle
    omega
  done id h := by
    rcases h with h | h
    · exact h
    · exact absurd h (Finset.notMem_empty id)
  watermark := Finset.notMem_empty _

/-- It depends on the workers through the jobs in their hands only. -/
theorem Holding.congr (h : Holding s) (hhand : ∀ v, inHand (t.workers v) = inHand (s.workers v))
    (haccepted : t.accepted = s.accepted) (hchannel : t.channel = s.channel)
    (hprogress : t.progress = s.progress) : Holding t := by
  have htaken : taken t = taken s := by rw [taken, taken, haccepted, hchannel]
  constructor
  · rw [hchannel, haccepted]
    exact h.suffix
  · intro w job hjob
    rw [haccepted, htaken, hprogress]
    exact h.held w job (hhand w ▸ hjob)
  · intro v w job job' hv hw
    exact h.distinct v w job job' (hhand v ▸ hv) (hhand w ▸ hw)
  · rw [htaken, hprogress]
    simp only [hhand]
    exact h.covered
  · rw [htaken, hprogress]
    exact h.done
  · rw [hprogress]
    exact h.watermark

theorem Holding.send (h : Holding s) (hworkers : t.workers = s.workers)
    (haccepted : t.accepted = s.accepted ++ [job]) (hchannel : t.channel = s.channel ++ [job])
    (hprogress : t.progress = s.progress) : Holding t := by
  have htaken : taken t = taken s := by
    rw [taken, taken, haccepted, hchannel, List.length_append, List.length_append]
    omega
  constructor
  · rw [hchannel, haccepted]
    obtain ⟨before, hbefore⟩ := h.suffix
    exact ⟨before, by rw [← hbefore, List.append_assoc]⟩
  · rw [haccepted, htaken, hprogress, hworkers]
    intro w job' hjob
    obtain ⟨hmem, hrest⟩ := h.held w job' hjob
    exact ⟨List.mem_append_left _ hmem, hrest⟩
  · rw [hworkers]
    exact h.distinct
  · rw [htaken, hprogress, hworkers]
    exact h.covered
  · rw [htaken, hprogress]
    exact h.done
  · rw [hprogress]
    exact h.watermark

theorem Holding.producer (h : Holding s) (he : ProducerEffect s p t) : Holding t := by
  cases he with
  | send => exact h.send rfl rfl rfl rfl
  | _ => exact h.congr (fun _ => rfl) rfl rfl rfl

theorem Holding.notifyAll (h : Holding s) : Holding s.notifyAll :=
  h.congr (fun v => inHand_wake (s.workers v)) rfl rfl rfl

/-! ## Accepted jobs and their numbers -/

theorem Admission.mem_accepted (h : Admission s) (hjob : job ∈ s.accepted) :
    1 ≤ job.id ∧ job.id ≤ s.accepted.length ∧ s.accepted[job.id - 1]? = some job := by
  obtain ⟨i, hlt, hi⟩ := List.getElem_of_mem hjob
  have hi : s.accepted[i]? = some job := List.getElem?_eq_some_iff.2 ⟨hlt, hi⟩
  rw [h.ids i job hi]
  exact ⟨Nat.succ_pos i, hlt, hi⟩

theorem Admission.eq_of_id {job' : PushJob} (h : Admission s) (hjob : job ∈ s.accepted)
    (hjob' : job' ∈ s.accepted) (hid : job.id = job'.id) : job = job' := by
  have hget := (h.mem_accepted hjob).2.2
  rw [hid, (h.mem_accepted hjob').2.2] at hget
  exact (Option.some.inj hget).symm

/-- The first job in the channel is the next one to be taken. -/
theorem Admission.head_id {channel : List PushJob} (h : Admission s) (hh : Holding s)
    (hchannel : s.channel = job :: channel) : job ∈ s.accepted ∧ job.id = taken s + 1 := by
  obtain ⟨before, hbefore⟩ := hh.suffix
  rw [hchannel] at hbefore
  have hlength : taken s = before.length := by
    rw [taken, hchannel, ← hbefore, List.length_append, Nat.add_sub_cancel]
  rw [hlength]
  constructor
  · rw [← hbefore]
    exact List.mem_append_right _ List.mem_cons_self
  · apply h.ids
    rw [← hbefore, List.getElem?_append_right le_rfl, Nat.sub_self]
    rfl

theorem Holding.recv {channel : List PushJob} (h : Holding s) (ha : Admission s)
    (hw : s.workers w = .recv) (hchannel : s.channel = job :: channel) :
    Holding { s.setWorker w (.subDepth job) with receiver := none, channel := channel } := by
  obtain ⟨hmem, hid⟩ := ha.head_id h hchannel
  have htaken : s.accepted.length - channel.length = taken s + 1 := by
    have hle := h.suffix.length_le
    rw [taken, hchannel, List.length_cons] at *
    omega
  -- the hands of the others are as they were
  have hhand (v : Fin n) (job' : PushJob)
      (hv : inHand (Function.update s.workers w (.subDepth job) v) = some job') :
      (v = w ∧ job' = job) ∨ (v ≠ w ∧ inHand (s.workers v) = some job') := by
    by_cases hvw : v = w
    · subst hvw
      rw [Function.update_self] at hv
      exact .inl ⟨rfl, (Option.some.inj hv).symm⟩
    · rw [Function.update_of_ne hvw] at hv
      exact .inr ⟨hvw, hv⟩
  constructor
  · exact (List.suffix_cons job channel).trans (hchannel ▸ h.suffix)
  · intro v job' hv
    show _ ∧ _ ≤ s.accepted.length - channel.length ∧ _
    rw [htaken]
    rcases hhand v job' hv with ⟨_, rfl⟩ | ⟨_, hv⟩
    · refine ⟨hmem, hid.le, fun hdone => ?_⟩
      have hle := h.done _ hdone
      omega
    · obtain ⟨hmem', hle, hdone⟩ := h.held v job' hv
      exact ⟨hmem', hle.trans (Nat.le_succ _), hdone⟩
  · intro v v' job₁ job₂ hv hv' heq
    rcases hhand v job₁ hv with ⟨rfl, hjob₁⟩ | ⟨_, hold⟩
    · rcases hhand v' job₂ hv' with ⟨rfl, _⟩ | ⟨_, hold'⟩
      · rfl
      · have hle := (h.held v' job₂ hold').2.1
        rw [← heq, hjob₁] at hle
        omega
    · rcases hhand v' job₂ hv' with ⟨_, hjob₂⟩ | ⟨_, hold'⟩
      · have hle := (h.held v job₁ hold).2.1
        rw [heq, hjob₂] at hle
        omega
      · exact h.distinct v v' job₁ job₂ hold hold' heq
  · intro id hpos hle
    change id ≤ s.accepted.length - channel.length at hle
    rw [htaken] at hle
    rcases Nat.le_succ_iff.1 hle with hle | rfl
    · refine (h.covered id hpos hle).imp_right fun ⟨v, job', hv, hid'⟩ => ⟨v, job', ?_, hid'⟩
      show inHand (Function.update s.workers w _ v) = some job'
      rw [Function.update_of_ne]
      · exact hv
      · rintro rfl
        rw [hw] at hv
        contradiction
    · refine .inr ⟨w, job, ?_, hid⟩
      show inHand (Function.update s.workers w _ w) = some job
      rw [Function.update_self]
      rfl
  · intro id hdone
    show id ≤ s.accepted.length - channel.length
    rw [htaken]
    exact (h.done id hdone).trans (Nat.le_succ _)
  · exact h.watermark

theorem Holding.complete (h : Holding s) (hw : s.workers w = .complete job) :
    Holding ((s.markJobComplete job.id).setWorker w .lockReceiver) := by
  have hjob : inHand (s.workers w) = some job := by
    rw [hw]
    rfl
  have hhand (v : Fin n) (job' : PushJob)
      (hv : inHand (Function.update (fun v => (s.workers v).wake) w .lockReceiver v) = some job') :
      v ≠ w ∧ inHand (s.workers v) = some job' := by
    by_cases hvw : v = w
    · subst hvw
      rw [Function.update_self] at hv
      contradiction
    · rw [Function.update_of_ne hvw, inHand_wake] at hv
      exact ⟨hvw, hv⟩
  constructor
  · exact h.suffix
  · intro v job' hv
    obtain ⟨hvw, hv⟩ := hhand v job' hv
    obtain ⟨hmem, hle, hdone⟩ := h.held v job' hv
    refine ⟨hmem, hle, fun hdone' => ?_⟩
    rcases (done_markJobComplete s.progress job.id job'.id).1 hdone' with hdone' | heq
    · exact hdone hdone'
    · exact hvw (h.distinct v w job' job hv hjob heq)
  · intro v v' job₁ job₂ hv hv'
    exact h.distinct v v' job₁ job₂ (hhand v job₁ hv).2 (hhand v' job₂ hv').2
  · intro id hpos hle
    show Done (s.progress.markJobComplete job.id) id ∨ _
    rw [done_markJobComplete]
    by_cases hid : id = job.id
    · exact .inl (.inr hid)
    · refine (h.covered id hpos hle).imp .inl fun ⟨v, job', hv, hid'⟩ => ⟨v, job', ?_, hid'⟩
      show inHand (Function.update (fun v => (s.workers v).wake) w _ v) = some job'
      rw [Function.update_of_ne]
      · rw [inHand_wake]
        exact hv
      · rintro rfl
        rw [hjob] at hv
        exact hid (hid'.symm.trans (congrArg PushJob.id (Option.some.inj hv).symm))
  · intro id hdone
    rcases (done_markJobComplete s.progress job.id id).1 hdone with hdone | rfl
    · exact h.done id hdone
    · exact (h.held w job hjob).2.1
  · exact markJobComplete_stops s.progress job.id

theorem Holding.worker (h : Holding s) (ha : Admission s) (he : WorkerEffect s w t) :
    Holding t := by
  have hsame {a b : WorkerPhase} (hw : s.workers w = a) (hab : inHand b = inHand a) (v : Fin n) :
      inHand (Function.update s.workers w b v) = inHand (s.workers v) := by
    by_cases hvw : v = w
    · rw [hvw, Function.update_self, hw, hab]
    · rw [Function.update_of_ne hvw]
  cases he with
  | move hw hmove => exact h.congr (hsame hw hmove.inHand) rfl rfl rfl
  | recv hw hchannel => exact h.recv ha hw hchannel
  | subDepth hw => exact h.congr (hsame hw rfl) rfl rfl rfl
  | run hw => exact h.congr (hsame hw rfl) rfl rfl rfl
  | complete hw => exact h.complete hw

/-! ## Every step -/

structure PushInv (s : PushQueue m n) : Prop where
  locks : Locks s
  admission : Admission s
  holding : Holding s

variable {capacity : Nat} {l : PushStep m n}

theorem PushInv.initial : PushInv (PushQueue.initial m n capacity) where
  locks := by
    constructor
    · exact fun _ => iff_of_false nofun nofun
    · exact fun _ => iff_of_false nofun nofun
    · exact fun _ => iff_of_false nofun nofun
  admission := .initial capacity
  holding := .initial capacity

theorem PushInv.step (h : PushInv s) (he : Effect s l t) : PushInv t := by
  obtain ⟨hl, ha, hh⟩ := h
  cases he with
  | enqueue he => exact ⟨hl.producer he, ha.producer hl he, hh.producer he⟩
  | producer he => exact ⟨hl.producer he, ha.producer hl he, hh.producer he⟩
  | worker he => exact ⟨hl.worker he, ha.worker he, hh.worker ha he⟩
  | close hfree =>
    refine ⟨⟨hl.tx, hl.receiver, hl.progress⟩, ?_, hh.congr (fun _ => rfl) rfl rfl rfl⟩
    -- nobody is inside who has seen the sender
    have hsender (p : Fin m) (hp : hasSender (s.producers p) = true) : false = true :=
      absurd (admitting_of_hasSender hp) (hfree ▸ hl.tx).outside
    exact { ha with sender := hsender }
  | cancel =>
    exact ⟨⟨hl.tx, hl.receiver, hl.progress⟩, ha.of_producers rfl rfl rfl rfl rfl le_rfl rfl,
      hh.congr (fun _ => rfl) rfl rfl rfl⟩
  | notifyAll => exact ⟨hl.notifyAll, ha.notifyAll, hh.notifyAll⟩
  | wake he => exact ⟨hl.worker he, ha.worker he, hh.worker ha he⟩
  | spurious => exact ⟨hl, ha, hh⟩

theorem PushInv.of_reachable (h : Reachable (pushQueue m n capacity) s) : PushInv s :=
  h.invariant (fun _ hinit => hinit ▸ .initial)
    fun _ _ _ _ hinv _ hstep => hinv.step (step_effect hstep)

end Luchta.Proof.Remote
