import Luchta.Framework.Backlog
import Luchta.Framework.Mutex
import Luchta.Proof.Worker.Jobs

/-!
# What is left behind a reader that has stopped

* `Orderly`: what a step must not do for no job to be stuck.
* `Hearing`: a job in the map is going to be cleared, or to find the writer gone. Orderly steps keep it.
* `Passing`: what is handed to the writer gets into its channel.
-/

namespace Luchta.Proof.Worker

open Luchta.Framework Luchta.Impl

variable {n : Nat}

/-! ## Conditions -/

/-- The process is gone, and the reaper has not cleared the jobs yet. -/
def Reaping (s : WorkerHandle n) : Prop := s.gone = true ∧ s.reaper ≠ .ended

def Alive (jobs : HashMap String (Fin n)) (i : Fin n) : Prop := ∃ k, jobs.lookup k = some i

/-- What a round trip is about to hand to the writer. -/
def handing (writerTx : Bool) : DispatchPhase → Multiset WorkerMessage
  | .cloneWriter message => if writerTx then {message} else 0
  | .enqueue message => {message}
  | _ => 0

def handed (s : WorkerHandle n) : Multiset WorkerMessage := ∑ i, handing s.writerTx (s.dispatches i)

/-- What the writer has still to write of its line. -/
def unwritten : WriterPhase → Nat
  | .write remaining => remaining
  | _ => 0

/-- All of these get into the channel without the process reading on, or nobody reads any more. -/
def Passable (lineBytes : WorkerMessage → Nat) (s : WorkerHandle n) (waits : Multiset WorkerMessage) :
    Prop :=
  s.stdinClosed = true ∨
    Fits CHANNEL_CAPACITY (fun m => lineBytes m + 1) s.room (unwritten s.writer) s.requests waits

/-- Behind a reader that has stopped, the step registers a job only where it is bound to fail, and hands
no message to a writer that has cleared the jobs; the reader does not stop while more is handed to the
writer than the channel and the pipe take. -/
def Orderly (lineBytes : WorkerMessage → Nat) (s : WorkerHandle n) : WorkerStep n → Prop
  | .dispatch i =>
    (∀ message, s.dispatches i = .insert message → s.reader = .stopped →
      s.stdinClosed = true ∨ s.writerTx = false ∨
        Reaping s ∧ Passable lineBytes s ({message} + handed s)) ∧
    ∀ message, s.dispatches i = .enqueue message → s.reader = .stopped → s.writer = .ending →
      Reaping s ∨ ¬ Alive s.jobs i
  | .reader => s.reader = .crash → Passable lineBytes s (handed s)
  | _ => True

/-! ## After the reader -/

/-- The writer is going to find that nobody reads. -/
def Failing (requests : List WorkerMessage) : WriterPhase → Prop
  | .recv => requests ≠ []
  | .write remaining => 0 < remaining ∨ requests ≠ []
  | .crash => True
  | .ending | .ended => False

/-- What is left to a round trip whose job is in the map: to find the writer gone, or to be cleared by it. -/
def Hears (closed writerTx : Bool) (writer : WriterPhase) (requests : List WorkerMessage) :
    DispatchPhase → Prop
  | .cloneWriter _ => closed = true ∨ writerTx = false
  | .enqueue _ => closed = true
  | .await _ => closed = true ∧ Failing requests writer
  | _ => True

/-- Every job in the map is going to be cleared by the reaper, by the reader, or as `Hears` says. -/
def Hearing (s : WorkerHandle n) : Prop :=
  ∀ i, Alive s.jobs i → Reaping s ∨ s.reader ≠ .stopped ∨
    Hears s.stdinClosed s.writerTx s.writer s.requests (s.dispatches i)

variable {s t : WorkerHandle n} {lineBytes : WorkerMessage → Nat} {capacity : Nat} {i : Fin n}
  {phase : DispatchPhase} {jobs : HashMap String (Fin n)} {requests : List WorkerMessage}

theorem not_alive_empty (i : Fin n) : ¬ Alive ∅ i := by
  rintro ⟨k, hk⟩
  rw [AList.lookup_empty] at hk
  cases hk

theorem alive_of_erase {k : String} (h : Alive (jobs.erase k) i) : Alive jobs i := by
  obtain ⟨k', hk⟩ := h
  by_cases hkk : k' = k
  · rw [hkk, AList.lookup_erase] at hk
    cases hk
  · rw [AList.lookup_erase_ne hkk] at hk
    exact ⟨k', hk⟩

theorem alive_of_insert {k : String} {j : Fin n} (hne : j ≠ i) (h : Alive (jobs.insert k i) j) :
    Alive jobs j := by
  obtain ⟨k', hk⟩ := h
  rw [HashMap.lookup_insert_if] at hk
  split at hk
  · exact absurd (Option.some.inj hk).symm hne
  · exact ⟨k', hk⟩

theorem not_alive_of_jobId (hjobs : JobsState s) (hid : jobId (s.dispatches i) = none) :
    ¬ Alive s.jobs i := fun ⟨k, hk⟩ => hjobs.not_found hid k hk

theorem Failing.of_requests (h : Failing s.requests s.writer)
    (hrequests : s.requests ≠ [] → requests ≠ []) : Failing requests s.writer := by
  cases hwriter : s.writer with
  | recv =>
    rw [hwriter] at h
    exact hrequests h
  | write remaining =>
    rw [hwriter] at h
    exact Or.imp_right hrequests h
  | crash => trivial
  | ending | ended =>
    rw [hwriter] at h
    exact h

theorem Hears.of_requests (h : Hears s.stdinClosed s.writerTx s.writer s.requests phase)
    (hrequests : s.requests ≠ [] → requests ≠ []) :
    Hears s.stdinClosed s.writerTx s.writer requests phase := by
  cases phase with
  | await message => exact ⟨h.1, h.2.of_requests hrequests⟩
  | _ => exact h

theorem Hears.takeResponse {closed writerTx : Bool} {writer : WriterPhase} {message : WorkerMessage}
    (h : Hears closed writerTx writer requests (.await message)) (response : WorkerResponse) :
    Hears closed writerTx writer requests (WorkerHandle.takeResponse message response) := by
  unfold WorkerHandle.takeResponse
  split
  · trivial
  · exact h

namespace Hearing

/-- One round trip goes on. -/
theorem dispatch (h : Hearing s) {responses : Fin n → List WorkerResponse}
    (hjobs : ∀ j, j ≠ i → Alive jobs j → Alive s.jobs j)
    (hhears : Alive jobs i → Reaping s ∨ s.reader ≠ .stopped ∨
      Hears s.stdinClosed s.writerTx s.writer requests phase)
    (hrequests : s.requests ≠ [] → requests ≠ []) :
    Hearing { s with
      jobs := jobs
      responses := responses
      dispatches := Function.update s.dispatches i phase
      requests := requests } := by
  intro j hj
  dsimp only at hj ⊢
  by_cases hji : j = i
  · subst hji
    rw [Function.update_self]
    exact hhears hj
  · rw [Function.update_of_ne hji]
    exact (h j (hjobs j hji hj)).imp_right (Or.imp_right fun hhears => hhears.of_requests hrequests)

/-- The same for one that neither registers a job nor hands over a message. -/
theorem go (h : Hearing s) {responses : Fin n → List WorkerResponse}
    (hjobs : ∀ j, Alive jobs j → Alive s.jobs j)
    (hhears : Alive s.jobs i → Reaping s ∨ s.reader ≠ .stopped ∨
      Hears s.stdinClosed s.writerTx s.writer s.requests phase) :
    Hearing { s with
      jobs := jobs
      responses := responses
      dispatches := Function.update s.dispatches i phase } :=
  h.dispatch (fun j _ => hjobs j) (fun hi => hhears (hjobs i hi)) id

theorem dispatchStep (h : Hearing s) (hjobs : JobsState s)
    (hinsert : ∀ message, s.dispatches i = .insert message →
      Reaping s ∨ s.reader ≠ .stopped ∨ s.stdinClosed = true ∨ s.writerTx = false)
    (henqueue : ∀ message, s.dispatches i = .enqueue message → s.writer = .ending → Alive s.jobs i →
      Reaping s ∨ s.reader ≠ .stopped)
    (hstep : s.dispatchStep i = some t) : Hearing t := by
  unfold WorkerHandle.dispatchStep at hstep
  split at hstep
  case h_1 => cases hstep
  case h_2 => cases hstep
  case h_3 => cases hstep
  case h_4 message hphase =>
    have hdead := not_alive_of_jobId hjobs (i := i) (by rw [hphase]; rfl)
    obtain rfl := Option.some.inj hstep
    exact h.go (fun _ => id) fun hi => absurd hi hdead
  case h_5 message hphase =>
    have hdead := not_alive_of_jobId hjobs (i := i) (by rw [hphase]; rfl)
    obtain rfl := Option.some.inj hstep
    exact h.go (fun _ => id) fun hi => absurd hi hdead
  case h_6 message hphase =>
    obtain rfl := Option.some.inj hstep
    exact h.dispatch (fun j hji => alive_of_insert hji) (fun _ => hinsert message hphase) id
  case h_7 message hphase =>
    obtain rfl := Option.some.inj hstep
    refine h.go (fun _ => id) fun hi => ?_
    have hhears := h i hi
    rw [hphase] at hhears
    split
    · rename_i hsome
      refine hhears.imp_right (Or.imp_right fun hclosed => hclosed.resolve_right fun hnone => ?_)
      rw [hsome] at hnone
      cases hnone
    · exact .inr (.inr trivial)
  case h_8 message hphase =>
    split at hstep
    · obtain rfl := Option.some.inj hstep
      exact h.go (fun _ => id) fun _ => .inr (.inr trivial)
    · rename_i hwriter
      split at hstep
      · obtain rfl := Option.some.inj hstep
        have hne : s.requests ++ [message] ≠ [] :=
          List.append_ne_nil_of_right_ne_nil _ (List.cons_ne_nil _ _)
        refine h.dispatch (fun j _ => id) (fun hi => ?_) fun _ => hne
        have hhears := h i hi
        rw [hphase] at hhears
        by_cases hending : s.writer = .ending
        · exact (henqueue message hphase hending hi).imp_right .inl
        · refine hhears.imp_right (Or.imp_right fun hclosed => ⟨hclosed, ?_⟩)
          cases hphase : s.writer with
          | recv => exact hne
          | write remaining => exact .inr hne
          | crash => trivial
          | ending => exact hending hphase
          | ended => exact hwriter hphase
      · cases hstep
  case h_9 message hphase =>
    split at hstep
    · rename_i response responses hresponses
      obtain rfl := Option.some.inj hstep
      refine h.go (fun _ => id) fun hi => ?_
      have hhears := h i hi
      rw [hphase] at hhears
      exact hhears.imp_right (Or.imp_right fun hhears => hhears.takeResponse response)
    · split at hstep
      · cases hstep
      · obtain rfl := Option.some.inj hstep
        exact h.go (fun _ => id) fun _ => .inr (.inr trivial)
  case h_10 message result hphase =>
    obtain rfl := Option.some.inj hstep
    exact h.go (fun j => alive_of_erase) fun _ => .inr (.inr trivial)

/-- The jobs are cleared. -/
theorem clear (hjobs : t.jobs = ∅) : Hearing t := fun j hj => absurd (hjobs ▸ hj) (not_alive_empty j)

/-- The writer goes on, and still finds that nobody reads if it would have done so before. -/
theorem write (h : Hearing s) {writer : WriterPhase} {room : Nat}
    (hfailing : s.stdinClosed = true → Failing s.requests s.writer → Failing requests writer) :
    Hearing { s with requests := requests, writer := writer, room := room } := by
  intro j hj
  refine (h j hj).imp_right (Or.imp_right fun hhears => ?_)
  dsimp only
  cases hphase : s.dispatches j with
  | await message =>
    rw [hphase] at hhears
    exact ⟨hhears.1, hfailing hhears.1 hhears.2⟩
  | _ =>
    rw [hphase] at hhears
    exact hhears

theorem writerStep (h : Hearing s) (hstep : s.writerStep lineBytes = some t) : Hearing t := by
  unfold WorkerHandle.writerStep at hstep
  split at hstep
  case h_1 hwriter =>
    split at hstep
    · obtain rfl := Option.some.inj hstep
      exact h.write fun _ _ => .inl (Nat.succ_pos _)
    · rename_i hrequests
      split at hstep
      · obtain rfl := Option.some.inj hstep
        refine h.write fun _ hfailing => ?_
        rw [hwriter] at hfailing
        exact hfailing hrequests
      · cases hstep
  case h_2 remaining hwriter =>
    split at hstep
    · rename_i hzero
      obtain rfl := Option.some.inj hstep
      refine h.write fun _ hfailing => ?_
      rw [hwriter, hzero] at hfailing
      exact hfailing.resolve_left (Nat.lt_irrefl 0)
    · split at hstep
      · obtain rfl := Option.some.inj hstep
        exact h.write fun _ _ => trivial
      · rename_i hopen
        split at hstep
        · cases hstep
        · obtain rfl := Option.some.inj hstep
          exact h.write fun hclosed => absurd hclosed hopen
  case h_3 hwriter =>
    obtain rfl := Option.some.inj hstep
    exact .clear rfl
  case h_4 hwriter =>
    obtain rfl := Option.some.inj hstep
    refine h.write fun _ hfailing => ?_
    rw [hwriter] at hfailing
    cases hfailing
  case h_5 => cases hstep

theorem reaperStep (h : Hearing s) {contended : Bool} (hstep : s.reaperStep contended = some t) :
    Hearing t := by
  unfold WorkerHandle.reaperStep at hstep
  split at hstep
  case h_1 =>
    split at hstep
    · rename_i hgone
      obtain rfl := Option.some.inj hstep
      exact fun j hj => .inl ⟨hgone, nofun⟩
    · cases hstep
  case h_2 hreaper =>
    obtain rfl := Option.some.inj hstep
    refine fun j hj => (h j hj).imp (fun hreaping => ⟨hreaping.1, nofun⟩)
      (Or.imp_right fun hhears => ?_)
    dsimp only
    cases hphase : s.dispatches j with
    | cloneWriter message =>
      rw [hphase] at hhears
      exact hhears.imp_right fun hnone => by rw [hnone, Bool.false_and]
    | _ =>
      rw [hphase] at hhears
      exact hhears
  case h_3 =>
    obtain rfl := Option.some.inj hstep
    exact .clear rfl
  case h_4 => cases hstep

/-- Where the reader stops, it clears the jobs; until then it is going to. -/
theorem readerStep (hstep : s.readerStep = some t) : Hearing t := by
  have hgoing : t.reader ≠ .stopped → Hearing t := fun hreader j _ => .inr (.inl hreader)
  unfold WorkerHandle.readerStep at hstep
  split at hstep
  case h_1 =>
    split at hstep
    · split at hstep
      · obtain rfl := Option.some.inj hstep
        exact hgoing nofun
      · cases hstep
    all_goals
      obtain rfl := Option.some.inj hstep
      exact hgoing nofun
  case h_2 =>
    obtain rfl := Option.some.inj hstep
    apply hgoing
    dsimp only
    split
    · exact nofun
    · exact nofun
  case h_3 =>
    split at hstep
    · split at hstep
      · obtain rfl := Option.some.inj hstep
        exact hgoing nofun
      · cases hstep
    · obtain rfl := Option.some.inj hstep
      exact hgoing nofun
  case h_4 =>
    obtain rfl := Option.some.inj hstep
    exact .clear rfl
  case h_5 => cases hstep

theorem closeStdin (h : Hearing s) : Hearing { s with stdinClosed := true } := by
  refine fun j hj => (h j hj).imp_right (Or.imp_right fun hhears => ?_)
  dsimp only
  cases hphase : s.dispatches j with
  | cloneWriter message => exact .inl rfl
  | enqueue message => exact rfl
  | await message =>
    rw [hphase] at hhears
    exact ⟨rfl, hhears.2⟩
  | _ => trivial

theorem exit (h : Hearing s) : Hearing { s with gone := true } := fun j hj =>
  (h j hj).imp_left fun hreaping => ⟨rfl, hreaping.2⟩

end Hearing

/-! ## The channel of the writer -/

def Passing (lineBytes : WorkerMessage → Nat) (s : WorkerHandle n) : Prop :=
  Passable lineBytes s (handed s)

theorem Passable.anti {waits waits' : Multiset WorkerMessage} (h : Passable lineBytes s waits)
    (hle : waits' ≤ waits) : Passable lineBytes s waits' := h.imp_right fun hfits => hfits.anti hle

theorem handing_cloneWriter_le (writerTx : Bool) (message : WorkerMessage) :
    handing writerTx (.cloneWriter message) ≤ {message} := by
  cases writerTx with
  | true => exact le_refl _
  | false => exact Multiset.zero_le _

theorem handing_takeResponse {writerTx : Bool} (message : WorkerMessage) (response : WorkerResponse) :
    handing writerTx (WorkerHandle.takeResponse message response) = 0 := by
  unfold WorkerHandle.takeResponse
  split
  · rfl
  · rfl

/-- One round trip goes on, and is not about to hand over more than before. -/
theorem Passing.go (h : Passing lineBytes s) {responses : Fin n → List WorkerResponse}
    (hle : handing s.writerTx phase ≤ handing s.writerTx (s.dispatches i)) :
    Passing lineBytes { s with
      jobs := jobs
      responses := responses
      dispatches := Function.update s.dispatches i phase } := by
  refine Passable.anti h ?_
  have hsum := sum_update (handing s.writerTx) s.dispatches i phase
  refine le_of_add_le_add_right (a := handing s.writerTx (s.dispatches i)) ?_
  show ∑ j, handing s.writerTx (Function.update s.dispatches i phase j) + _ ≤ _
  rw [hsum]
  exact add_le_add_right hle _

theorem Passing.dispatchStep (h : Passing lineBytes s)
    (hinsert : ∀ message, s.dispatches i = .insert message →
      s.stdinClosed = true ∨ s.writerTx = false ∨ Passable lineBytes s ({message} + handed s))
    (hstep : s.dispatchStep i = some t) : Passing lineBytes t := by
  unfold WorkerHandle.dispatchStep at hstep
  split at hstep
  case h_1 => cases hstep
  case h_2 => cases hstep
  case h_3 => cases hstep
  case h_4 message hphase =>
    obtain rfl := Option.some.inj hstep
    refine h.go ?_
    split
    · exact Multiset.zero_le _
    · exact Multiset.zero_le _
  case h_5 message hphase =>
    obtain rfl := Option.some.inj hstep
    refine h.go ?_
    split
    · exact Multiset.zero_le _
    · exact Multiset.zero_le _
  case h_6 message hphase =>
    obtain rfl := Option.some.inj hstep
    have hsum := sum_update (handing s.writerTx) s.dispatches i (.cloneWriter message)
    rw [hphase, show handing s.writerTx (.insert message) = 0 from rfl, add_zero] at hsum
    show Passable lineBytes s
      (∑ j, handing s.writerTx (Function.update s.dispatches i (.cloneWriter message) j))
    rw [hsum]
    rcases hinsert message hphase with hclosed | hnone | hpassable
    · exact .inl hclosed
    · rw [hnone, show handing false (.cloneWriter message) = 0 from rfl, add_zero, ← hnone]
      exact h
    · refine hpassable.anti ?_
      rw [add_comm]
      exact add_le_add_left (handing_cloneWriter_le s.writerTx message) _
  case h_7 message hphase =>
    obtain rfl := Option.some.inj hstep
    refine h.go ?_
    rw [hphase]
    split
    · rename_i hsome
      rw [hsome]
      exact le_refl _
    · exact Multiset.zero_le _
  case h_8 message hphase =>
    split at hstep
    · obtain rfl := Option.some.inj hstep
      exact h.go (Multiset.zero_le _)
    · split at hstep
      · obtain rfl := Option.some.inj hstep
        refine Or.imp_right (fun hfits => hfits.send ?_) h
        have hsum := sum_update (handing s.writerTx) s.dispatches i (.await message)
        rw [hphase, show handing s.writerTx (.await message) = 0 from rfl, add_zero] at hsum
        rw [add_comm]
        exact hsum
      · cases hstep
  case h_9 message hphase =>
    split at hstep
    · rename_i response responses hresponses
      obtain rfl := Option.some.inj hstep
      refine h.go ?_
      rw [handing_takeResponse]
      exact Multiset.zero_le _
    · split at hstep
      · cases hstep
      · obtain rfl := Option.some.inj hstep
        exact h.go (Multiset.zero_le _)
  case h_10 message result hphase =>
    obtain rfl := Option.some.inj hstep
    exact h.go (Multiset.zero_le _)

theorem Passing.writerStep (h : Passing lineBytes s) (hstep : s.writerStep lineBytes = some t) :
    Passing lineBytes t := by
  unfold WorkerHandle.writerStep at hstep
  split at hstep
  case h_1 hwriter =>
    split at hstep
    · rename_i message requests hrequests
      obtain rfl := Option.some.inj hstep
      refine Or.imp_right (fun hfits => ?_) h
      rw [hwriter, hrequests] at hfits
      exact hfits.take
    · split at hstep
      · obtain rfl := Option.some.inj hstep
        refine Or.imp_right (fun hfits => ?_) h
        rw [hwriter] at hfits
        exact hfits
      · cases hstep
  case h_2 remaining hwriter =>
    split at hstep
    · rename_i hzero
      obtain rfl := Option.some.inj hstep
      refine Or.imp_right (fun hfits => ?_) h
      rw [hwriter, hzero] at hfits
      exact hfits
    · split at hstep
      · rename_i hclosed
        obtain rfl := Option.some.inj hstep
        exact .inl hclosed
      · split at hstep
        · cases hstep
        · obtain rfl := Option.some.inj hstep
          refine Or.imp_right (fun hfits => ?_) h
          rw [hwriter] at hfits
          exact hfits.write
  case h_3 hwriter =>
    obtain rfl := Option.some.inj hstep
    refine Or.imp_right (fun hfits => ?_) h
    rw [hwriter] at hfits
    exact hfits
  case h_4 hwriter =>
    obtain rfl := Option.some.inj hstep
    refine Or.imp_right (fun hfits => ?_) h
    rw [hwriter] at hfits
    exact hfits
  case h_5 => cases hstep

theorem Passing.reaperStep (h : Passing lineBytes s) {contended : Bool}
    (hstep : s.reaperStep contended = some t) : Passing lineBytes t := by
  unfold WorkerHandle.reaperStep at hstep
  split at hstep
  case h_1 =>
    split at hstep
    · obtain rfl := Option.some.inj hstep
      exact h
    · cases hstep
  case h_2 =>
    obtain rfl := Option.some.inj hstep
    refine Passable.anti h (Finset.sum_le_sum fun j _ => ?_)
    cases s.dispatches j with
    | cloneWriter message =>
      cases s.writerTx with
      | true => exact handing_cloneWriter_le contended message
      | false => exact le_refl _
    | _ => exact le_refl _
  case h_3 =>
    obtain rfl := Option.some.inj hstep
    exact h
  case h_4 => cases hstep

/-- Where the reader stops, what is handed to the writer is as the condition says. -/
theorem Passing.of_readerStep (horderly : Orderly lineBytes s .reader)
    (hstep : s.readerStep = some t) (hstopped : t.reader = .stopped) : Passing lineBytes t := by
  unfold WorkerHandle.readerStep at hstep
  split at hstep
  case h_1 =>
    split at hstep
    · split at hstep
      · obtain rfl := Option.some.inj hstep
        cases hstopped
      · cases hstep
    all_goals
      obtain rfl := Option.some.inj hstep
      cases hstopped
  case h_2 =>
    obtain rfl := Option.some.inj hstep
    dsimp only at hstopped
    split at hstopped
    all_goals cases hstopped
  case h_3 =>
    split at hstep
    · split at hstep
      · obtain rfl := Option.some.inj hstep
        cases hstopped
      · cases hstep
    · obtain rfl := Option.some.inj hstep
      cases hstopped
  case h_4 hreader =>
    obtain rfl := Option.some.inj hstep
    exact horderly hreader
  case h_5 => cases hstep

end Luchta.Proof.Worker
