import Luchta.Framework.Progress
import Luchta.Proof.Worker.Swept

/-!
# Jobs of a worker whose reader has stopped

* `dispatchStep_advances`, `writerStep_works`, `reaperStep_works`: every step brings the tasks further.
* `jobs_answered`: in orderly runs, once the reader has stopped, all round trips return, whatever the
  process does, and each with what was answered to it.
* `jobs_stuck`: two runs in which a job waits for good.
-/

namespace Luchta.Proof.Worker

open Luchta.Framework Luchta.Impl

variable {n : Nat} {s t : WorkerHandle n} {lineBytes : WorkerMessage → Nat} {capacity : Nat} {i : Fin n}
  {phase : DispatchPhase}

/-! ## The steps of the tasks -/

/-- How many steps a round trip can still take, with those of the writer for its message. -/
def rank (lineBytes : WorkerMessage → Nat) : DispatchPhase → Nat
  | .checkExited message => lineBytes message + 10
  | .checkWriter message => lineBytes message + 9
  | .insert message => lineBytes message + 8
  | .cloneWriter message => lineBytes message + 7
  | .enqueue message => lineBytes message + 6
  | .await _ => 2
  | .remove _ _ => 1
  | .idle | .elsewhere _ | .returned _ _ => 0

def writerRank : WriterPhase → Nat
  | .write remaining => remaining + 4
  | .recv => 3
  | .crash => 2
  | .ending => 1
  | .ended => 0

def reaperRank : ReaperPhase → Nat
  | .wait => 3
  | .clearWriter => 2
  | .crash => 1
  | .ended => 0

/-- What is in the channels. -/
def queued (lineBytes : WorkerMessage → Nat) (s : WorkerHandle n) : Nat :=
  ∑ i, (s.responses i).length + (s.requests.map fun m => lineBytes m + 3).sum

def load (lineBytes : WorkerMessage → Nat) (s : WorkerHandle n) : Nat :=
  ∑ i, rank lineBytes (s.dispatches i) + queued lineBytes s + writerRank s.writer +
    reaperRank s.reaper

/-- What a step of a round trip leaves to others, and that it brings the round trip further. -/
structure Advances (lineBytes : WorkerMessage → Nat) (i : Fin n) (s t : WorkerHandle n) : Prop where
  dispatches : ∃ phase, t.dispatches = Function.update s.dispatches i phase
  frame : t = { s with
    jobs := t.jobs
    responses := t.responses
    dispatches := t.dispatches
    requests := t.requests }
  lower : load lineBytes t < load lineBytes s

theorem Advances.of_phase (hphase : s.dispatches i = phase) {phase' : DispatchPhase}
    (hdispatches : t.dispatches = Function.update s.dispatches i phase')
    (hframe : t = { s with
      jobs := t.jobs
      responses := t.responses
      dispatches := t.dispatches
      requests := t.requests })
    (hless : rank lineBytes phase' + queued lineBytes t <
      rank lineBytes phase + queued lineBytes s) : Advances lineBytes i s t := by
  refine ⟨⟨phase', hdispatches⟩, hframe, ?_⟩
  have hsum := sum_update (rank lineBytes) s.dispatches i phase'
  rw [← hdispatches, hphase] at hsum
  unfold load
  rw [congrArg WorkerHandle.writer hframe, congrArg WorkerHandle.reaper hframe]
  dsimp only
  omega

theorem Advances.reader (h : Advances lineBytes i s t) : t.reader = s.reader := by
  have hreader := congrArg WorkerHandle.reader h.frame
  exact hreader

theorem rank_takeResponse (message : WorkerMessage) (response : WorkerResponse) :
    rank lineBytes (WorkerHandle.takeResponse message response) ≤ 2 := by
  unfold WorkerHandle.takeResponse
  split
  · exact Nat.le_succ 1
  · exact Nat.le_refl 2

theorem dispatchStep_advances (hstep : s.dispatchStep i = some t) : Advances lineBytes i s t := by
  unfold WorkerHandle.dispatchStep at hstep
  split at hstep
  case h_1 => cases hstep
  case h_2 => cases hstep
  case h_3 => cases hstep
  case h_4 message hphase =>
    obtain rfl := Option.some.inj hstep
    refine .of_phase hphase rfl rfl (Nat.add_lt_add_right ?_ (queued lineBytes s))
    split
    · exact Nat.succ_pos _
    · exact Nat.lt_succ_self _
  case h_5 message hphase =>
    obtain rfl := Option.some.inj hstep
    refine .of_phase hphase rfl rfl (Nat.add_lt_add_right ?_ (queued lineBytes s))
    split
    · exact Nat.lt_succ_self _
    · exact Nat.succ_pos _
  case h_6 message hphase =>
    obtain rfl := Option.some.inj hstep
    refine .of_phase hphase rfl rfl (Nat.add_lt_add_right ?_ (queued lineBytes s))
    exact Nat.lt_succ_self _
  case h_7 message hphase =>
    obtain rfl := Option.some.inj hstep
    refine .of_phase hphase rfl rfl (Nat.add_lt_add_right ?_ (queued lineBytes s))
    split
    · exact Nat.lt_succ_self _
    · show 1 < lineBytes message + 7
      omega
  case h_8 message hphase =>
    split at hstep
    · obtain rfl := Option.some.inj hstep
      refine .of_phase hphase rfl rfl (Nat.add_lt_add_right ?_ (queued lineBytes s))
      show 1 < lineBytes message + 6
      omega
    · split at hstep
      · obtain rfl := Option.some.inj hstep
        refine .of_phase hphase rfl rfl ?_
        show 2 + (∑ j, (s.responses j).length +
            ((s.requests ++ [message]).map fun m => lineBytes m + 3).sum) <
          lineBytes message + 6 + queued lineBytes s
        unfold queued
        rw [List.map_append, List.sum_append, List.map_singleton, List.sum_singleton]
        omega
      · cases hstep
  case h_9 message hphase =>
    split at hstep
    · rename_i response responses hresponses
      obtain rfl := Option.some.inj hstep
      refine .of_phase hphase rfl rfl ?_
      have hrank : rank lineBytes (WorkerHandle.takeResponse message response) ≤ 2 :=
        rank_takeResponse message response
      have hsum := sum_update List.length s.responses i responses
      rw [hresponses, List.length_cons] at hsum
      show _ + (∑ j, (Function.update s.responses i responses j).length +
          (s.requests.map fun m => lineBytes m + 3).sum) < 2 + queued lineBytes s
      unfold queued
      omega
    · split at hstep
      · cases hstep
      · obtain rfl := Option.some.inj hstep
        refine .of_phase hphase rfl rfl (Nat.add_lt_add_right ?_ (queued lineBytes s))
        exact Nat.lt_succ_self 1
  case h_10 message result hphase =>
    obtain rfl := Option.some.inj hstep
    refine .of_phase hphase rfl rfl (Nat.add_lt_add_right ?_ (queued lineBytes s))
    exact Nat.zero_lt_one

/-- The writer and the reaper leave the round trips and the reader alone. -/
structure Works (lineBytes : WorkerMessage → Nat) (s t : WorkerHandle n) : Prop where
  dispatches : t.dispatches = s.dispatches
  reader : t.reader = s.reader
  lower : load lineBytes t < load lineBytes s

theorem writerStep_works (hstep : s.writerStep lineBytes = some t) : Works lineBytes s t := by
  have hload : ∀ writer requests room jobs,
      writerRank writer + (requests.map fun m => lineBytes m + 3).sum <
        writerRank s.writer + (s.requests.map fun m => lineBytes m + 3).sum →
      Works lineBytes s { s with writer := writer, requests := requests, room := room, jobs := jobs } := by
    intro writer requests room jobs hless
    refine ⟨rfl, rfl, ?_⟩
    unfold load queued
    dsimp only
    omega
  unfold WorkerHandle.writerStep at hstep
  split at hstep
  case h_1 hwriter =>
    split at hstep
    · rename_i message requests hrequests
      obtain rfl := Option.some.inj hstep
      refine hload _ _ _ _ ?_
      rw [hwriter, hrequests, List.map_cons, List.sum_cons]
      show lineBytes message + 1 + 4 + _ < 3 + (lineBytes message + 3 + _)
      omega
    · split at hstep
      · obtain rfl := Option.some.inj hstep
        refine hload _ _ _ _ (Nat.add_lt_add_right ?_ _)
        rw [hwriter]
        decide
      · cases hstep
  case h_2 remaining hwriter =>
    split at hstep
    · obtain rfl := Option.some.inj hstep
      refine hload _ _ _ _ (Nat.add_lt_add_right ?_ _)
      rw [hwriter]
      show 3 < remaining + 4
      omega
    · split at hstep
      · obtain rfl := Option.some.inj hstep
        refine hload _ _ _ _ (Nat.add_lt_add_right ?_ _)
        rw [hwriter]
        show 2 < remaining + 4
        omega
      · split at hstep
        · cases hstep
        · obtain rfl := Option.some.inj hstep
          refine hload _ _ _ _ (Nat.add_lt_add_right ?_ _)
          rw [hwriter]
          show remaining - s.room + 4 < remaining + 4
          omega
  case h_3 hwriter =>
    obtain rfl := Option.some.inj hstep
    refine hload _ _ _ _ (Nat.add_lt_add_right ?_ _)
    rw [hwriter]
    decide
  case h_4 hwriter =>
    obtain rfl := Option.some.inj hstep
    refine hload _ _ _ _ (Nat.add_lt_add_right ?_ _)
    rw [hwriter]
    decide
  case h_5 => cases hstep

theorem reaperStep_works {contended : Bool} (hstep : s.reaperStep contended = some t) :
    Works lineBytes s t := by
  have hload : ∀ reaper exited writerTx jobs, reaperRank reaper < reaperRank s.reaper →
      Works lineBytes s
        { s with reaper := reaper, exited := exited, writerTx := writerTx, jobs := jobs } :=
    fun _ _ _ _ hless => ⟨rfl, rfl, Nat.add_lt_add_left hless _⟩
  unfold WorkerHandle.reaperStep at hstep
  split at hstep
  case h_1 hreaper =>
    split at hstep
    · obtain rfl := Option.some.inj hstep
      refine hload _ _ _ _ ?_
      rw [hreaper]
      decide
    · cases hstep
  case h_2 hreaper =>
    obtain rfl := Option.some.inj hstep
    refine hload _ _ _ _ ?_
    rw [hreaper]
    decide
  case h_3 hreaper =>
    obtain rfl := Option.some.inj hstep
    refine hload _ _ _ _ ?_
    rw [hreaper]
    decide
  case h_4 => cases hstep

theorem readerStep_dispatches (hstep : s.readerStep = some t) : t.dispatches = s.dispatches := by
  unfold WorkerHandle.readerStep at hstep
  split at hstep
  case h_1 =>
    split at hstep
    · split at hstep
      · obtain rfl := Option.some.inj hstep
        rfl
      · cases hstep
    all_goals
      obtain rfl := Option.some.inj hstep
      rfl
  case h_2 =>
    obtain rfl := Option.some.inj hstep
    rfl
  case h_3 =>
    split at hstep
    · split at hstep
      · obtain rfl := Option.some.inj hstep
        rfl
      · cases hstep
    · obtain rfl := Option.some.inj hstep
      rfl
  case h_4 =>
    obtain rfl := Option.some.inj hstep
    rfl
  case h_5 => cases hstep

/-! ## Runs -/

/-- What is kept in every orderly run; the channel of the writer matters once the reader has stopped. -/
structure Swept (lineBytes : WorkerMessage → Nat) (s : WorkerHandle n) : Prop where
  jobs : JobsState s
  hearing : Hearing s
  passing : s.reader = .stopped → Passing lineBytes s

theorem Swept.dispatchStep (h : Swept lineBytes s) (horderly : Orderly lineBytes s (.dispatch i))
    (hstep : s.dispatchStep i = some t) : Swept lineBytes t := by
  refine ⟨h.jobs.dispatchStep hstep, h.hearing.dispatchStep h.jobs (fun message hphase => ?_)
    (fun message hphase hending hi => ?_) hstep, fun hstopped => ?_⟩
  · by_cases hreader : s.reader = .stopped
    · rcases horderly.1 message hphase hreader with hclosed | hnone | hreaping
      · exact .inr (.inr (.inl hclosed))
      · exact .inr (.inr (.inr hnone))
      · exact .inl hreaping.1
    · exact .inr (.inl hreader)
  · by_cases hreader : s.reader = .stopped
    · exact .inl ((horderly.2 message hphase hreader hending).resolve_right (not_not_intro hi))
    · exact .inr hreader
  · have hadvances : Advances lineBytes i s t := dispatchStep_advances hstep
    have hbefore : s.reader = .stopped := hadvances.reader ▸ hstopped
    refine (h.passing hbefore).dispatchStep (fun message hphase => ?_) hstep
    exact (horderly.1 message hphase hbefore).imp_right (Or.imp_right And.right)

/-- A call begins. -/
theorem Swept.begin (h : Swept lineBytes s) {fresh : Bool} (hid : jobId (s.dispatches i) = none)
    (hhanding : handing s.writerTx phase = 0) (hreturned : isReturned phase = false)
    (hanswer : answer phase = none) :
    Swept lineBytes { s.setDispatch i phase with fresh := fresh } := by
  have hdead := not_alive_of_jobId h.jobs hid
  have hhearing : Hearing (s.setDispatch i phase) := h.hearing.go (fun _ => id) fun hi => absurd hi hdead
  have hpassing : s.reader = .stopped → Passing lineBytes (s.setDispatch i phase) :=
    fun hstopped => (h.passing hstopped).go (by rw [hhanding]; exact Multiset.zero_le _)
  exact ⟨Jobs.silent h.jobs (.inl hid) hreturned hanswer, hhearing, hpassing⟩

theorem Swept.step (h : Swept lineBytes s) {l : WorkerStep n} (horderly : Orderly lineBytes s l)
    (hstep : workerStep lineBytes capacity s l = some t) : Swept lineBytes t := by
  cases l with
  | call i message =>
    simp only [workerStep] at hstep
    split at hstep
    · rename_i hphase
      obtain rfl := Option.some.inj hstep
      exact h.begin (by rw [hphase]; rfl) rfl rfl rfl
    · cases hstep
  | spawn i message =>
    simp only [workerStep] at hstep
    split at hstep
    · rename_i hphase
      split at hstep
      · obtain rfl := Option.some.inj hstep
        exact h.begin (by rw [hphase]; rfl) rfl rfl rfl
      · cases hstep
    · cases hstep
  | dispatch i => exact h.dispatchStep horderly hstep
  | writer =>
    refine ⟨h.jobs.writerStep hstep, h.hearing.writerStep hstep, fun hstopped => ?_⟩
    exact (h.passing ((writerStep_works hstep).reader ▸ hstopped)).writerStep hstep
  | reader =>
    exact ⟨h.jobs.readerStep hstep, .readerStep hstep, Passing.of_readerStep horderly hstep⟩
  | reaper contended =>
    refine ⟨h.jobs.reaperStep hstep, h.hearing.reaperStep hstep, fun hstopped => ?_⟩
    have hworks : Works lineBytes s t := reaperStep_works hstep
    exact (h.passing (hworks.reader ▸ hstopped)).reaperStep hstep
  | emit line =>
    simp only [workerStep] at hstep
    split at hstep
    · cases hstep
    · obtain rfl := Option.some.inj hstep
      exact ⟨h.jobs, h.hearing, h.passing⟩
  | closeStdout =>
    obtain rfl := Option.some.inj hstep
    exact ⟨h.jobs, h.hearing, h.passing⟩
  | drain bytes =>
    simp only [workerStep] at hstep
    split at hstep
    · obtain rfl := Option.some.inj hstep
      exact ⟨h.jobs, h.hearing, fun hstopped =>
        (h.passing hstopped).imp_right fun hfits => hfits.mono (Nat.le_add_right _ _)⟩
    · cases hstep
  | closeStdin =>
    obtain rfl := Option.some.inj hstep
    exact ⟨h.jobs, h.hearing.closeStdin, fun _ => .inl rfl⟩
  | exit =>
    obtain rfl := Option.some.inj hstep
    exact ⟨h.jobs, h.hearing.exit, h.passing⟩

theorem Swept.of_reach (h : Reach (workerHandle n lineBytes capacity) (Orderly lineBytes) s) :
    Swept lineBytes s := by
  refine h.invariant (I := Swept lineBytes) (fun s hinit => ?_)
    fun s l t _ ih horderly hstep => ih.step horderly hstep
  subst hinit
  have hstart : Reachable (workerHandle n lineBytes capacity) (.initial n capacity) := .init rfl
  exact ⟨.of_reachable hstart, .clear rfl, nofun⟩

/-! ## Returning -/

def IsInner : WorkerStep n → Prop
  | .dispatch _ | .writer | .reader | .reaper _ => True
  | _ => False

/-- Every round trip on this handle has returned, and no job is left. -/
def AllReturn (s : WorkerHandle n) : Prop :=
  (∀ i, ¬ Alive s.jobs i) ∧
    ∀ i, s.dispatches i = .idle ∨ (∃ message, s.dispatches i = .elsewhere message) ∨
      ∃ message result, s.dispatches i = .returned message result

theorem hasSender_iff (hstopped : s.reader = .stopped) : s.hasSender i = true ↔ Alive s.jobs i := by
  unfold WorkerHandle.hasSender
  rw [hstopped, Bool.or_false, List.any_eq_true]
  constructor
  · rintro ⟨⟨k, j⟩, hmem, hj⟩
    obtain rfl : j = i := of_decide_eq_true hj
    exact ⟨k, AList.mem_lookup_iff.2 hmem⟩
  · rintro ⟨k, hk⟩
    exact ⟨⟨k, i⟩, AList.mem_lookup_iff.1 hk, decide_eq_true rfl⟩

/-- A writer that cannot go on has nothing to write, is blocked, or has ended. -/
theorem writer_quiet (hquiet : s.writerStep lineBytes = none) :
    s.writer = .recv ∧ s.requests = [] ∨
      (∃ remaining, s.writer = .write remaining ∧ 0 < remaining) ∧ s.stdinClosed = false ∧ s.room = 0 ∨
      s.writer = .ended := by
  unfold WorkerHandle.writerStep at hquiet
  split at hquiet
  case h_1 hwriter =>
    split at hquiet
    · cases hquiet
    · rename_i hrequests
      exact .inl ⟨hwriter, hrequests⟩
  case h_2 remaining hwriter =>
    split at hquiet
    · cases hquiet
    · rename_i hpos
      split at hquiet
      · cases hquiet
      · rename_i hopen
        split at hquiet
        · rename_i hroom
          exact .inr (.inl ⟨⟨remaining, hwriter, Nat.pos_of_ne_zero hpos⟩, Bool.eq_false_of_not_eq_true hopen,
            hroom⟩)
        · cases hquiet
  case h_3 => cases hquiet
  case h_4 => cases hquiet
  case h_5 hwriter => exact .inr (.inr hwriter)

theorem not_reaping_of_quiet (hquiet : s.reaperStep false = none) : ¬ Reaping s := by
  rintro ⟨hgone, hreaper⟩
  unfold WorkerHandle.reaperStep at hquiet
  split at hquiet
  case h_1 =>
    rw [if_pos hgone] at hquiet
    cases hquiet
  case h_2 => cases hquiet
  case h_3 => cases hquiet
  case h_4 hended => exact hreaper hended

/-- No round trip waits for the writer. -/
theorem not_enqueue_of_quiet (hpassing : Passing lineBytes s) (hwriter : s.writerStep lineBytes = none)
    (hquiet : s.dispatchStep i = none) (message : WorkerMessage) : s.dispatches i ≠ .enqueue message := by
  intro hphase
  unfold WorkerHandle.dispatchStep at hquiet
  rw [hphase] at hquiet
  dsimp only at hquiet
  split at hquiet
  · cases hquiet
  · rename_i hended
    split at hquiet
    · cases hquiet
    · rename_i hfull
      rcases writer_quiet hwriter with ⟨-, hnil⟩ | ⟨⟨remaining, hphase', hpos⟩, hopen, hroom⟩ | hwriter
      · rw [hnil] at hfull
        exact hfull (by decide)
      · have hfits := Or.resolve_left hpassing (by rw [hopen]; exact nofun)
        have hle := hfits.le_room (Nat.le_of_not_lt hfull) ?_
        · rw [hphase', hroom] at hle
          exact Nat.lt_irrefl 0 (Nat.lt_of_lt_of_le hpos hle)
        · intro hnone
          have hsingle := Finset.single_le_sum (f := fun j => handing s.writerTx (s.dispatches j))
            (fun j _ => Multiset.zero_le _) (Finset.mem_univ i)
          rw [hphase] at hsingle
          have hzero := hsingle.trans (le_of_eq hnone)
          exact Multiset.singleton_ne_zero message (Multiset.le_zero.1 hzero)
      · exact hended hwriter

/-- No round trip waits for the reader. -/
theorem not_await_of_quiet (hhearing : Hearing s) (hstopped : s.reader = .stopped)
    (hwriter : s.writerStep lineBytes = none) (hreaping : ¬ Reaping s)
    (hquiet : s.dispatchStep i = none) (message : WorkerMessage) : s.dispatches i ≠ .await message := by
  intro hphase
  unfold WorkerHandle.dispatchStep at hquiet
  rw [hphase] at hquiet
  dsimp only at hquiet
  split at hquiet
  · cases hquiet
  · split at hquiet
    · rename_i hsender
      have hhears := ((hhearing i ((hasSender_iff hstopped).1 hsender)).resolve_left
        hreaping).resolve_left (not_not_intro hstopped)
      rw [hphase] at hhears
      obtain ⟨hclosed, hfailing⟩ := hhears
      rcases writer_quiet hwriter with ⟨hphase', hnil⟩ | ⟨-, hopen, -⟩ | hphase'
      · rw [hphase'] at hfailing
        exact hfailing hnil
      · rw [hopen] at hclosed
        cases hclosed
      · rw [hphase'] at hfailing
        exact hfailing
    · cases hquiet

theorem allReturn_of_quiet (hswept : Swept lineBytes s) (hstopped : s.reader = .stopped)
    (hquiet : Quiet (workerHandle n lineBytes capacity) IsInner s) : AllReturn s := by
  have hwriter : s.writerStep lineBytes = none := hquiet .writer trivial
  have hreaping := not_reaping_of_quiet (hquiet (.reaper false) trivial)
  have hphases : ∀ i, s.dispatches i = .idle ∨ (∃ message, s.dispatches i = .elsewhere message) ∨
      ∃ message result, s.dispatches i = .returned message result := by
    intro i
    have hnone : s.dispatchStep i = none := hquiet (.dispatch i) trivial
    cases hphase : s.dispatches i with
    | idle => exact .inl rfl
    | elsewhere message => exact .inr (.inl ⟨message, rfl⟩)
    | returned message result => exact .inr (.inr ⟨message, result, rfl⟩)
    | enqueue message => exact absurd hphase (not_enqueue_of_quiet (hswept.passing hstopped) hwriter hnone message)
    | await message =>
      exact absurd hphase (not_await_of_quiet hswept.hearing hstopped hwriter hreaping hnone message)
    | checkExited message | checkWriter message | insert message | cloneWriter message =>
      unfold WorkerHandle.dispatchStep at hnone
      rw [hphase] at hnone
      cases hnone
    | remove message result =>
      unfold WorkerHandle.dispatchStep at hnone
      rw [hphase] at hnone
      cases hnone
  refine ⟨fun i ⟨k, hk⟩ => ?_, hphases⟩
  obtain ⟨hid, hreturned⟩ := hswept.jobs.registered k i hk
  rcases hphases i with hphase | ⟨message, hphase⟩ | ⟨message, result, hphase⟩
  · rw [hphase] at hid
    cases hid
  · rw [hphase] at hid
    cases hid
  · rw [hphase] at hreturned
    cases hreturned

/-- A round trip returns once. -/
theorem returned_final {l : WorkerStep n} {message : WorkerMessage}
    {result : Except WorkerError WorkerResponse} (hphase : s.dispatches i = .returned message result)
    (hstep : workerStep lineBytes capacity s l = some t) : t.dispatches i = .returned message result := by
  cases l with
  | call j message' =>
    simp only [workerStep] at hstep
    split at hstep
    · rename_i hidle
      obtain rfl := Option.some.inj hstep
      refine (Function.update_of_ne ?_ _ _).trans hphase
      rintro rfl
      rw [hphase] at hidle
      cases hidle
    · cases hstep
  | spawn j message' =>
    simp only [workerStep] at hstep
    split at hstep
    · rename_i hidle
      split at hstep
      · obtain rfl := Option.some.inj hstep
        refine (Function.update_of_ne ?_ _ _).trans hphase
        rintro rfl
        rw [hphase] at hidle
        cases hidle
      · cases hstep
    · cases hstep
  | dispatch j =>
    have hadvances : Advances lineBytes j s t := dispatchStep_advances hstep
    obtain ⟨phase, hdispatches⟩ := hadvances.dispatches
    rw [hdispatches]
    refine (Function.update_of_ne ?_ _ _).trans hphase
    rintro rfl
    have hstep : s.dispatchStep i = some t := hstep
    unfold WorkerHandle.dispatchStep at hstep
    rw [hphase] at hstep
    cases hstep
  | writer => rw [(writerStep_works hstep).dispatches, hphase]
  | reaper contended =>
    have hworks : Works lineBytes s t := reaperStep_works hstep
    rw [hworks.dispatches, hphase]
  | reader => rw [readerStep_dispatches hstep, hphase]
  | emit line =>
    simp only [workerStep] at hstep
    split at hstep
    · cases hstep
    · obtain rfl := Option.some.inj hstep
      exact hphase
  | drain bytes =>
    simp only [workerStep] at hstep
    split at hstep
    · obtain rfl := Option.some.inj hstep
      exact hphase
    · cases hstep
  | closeStdout | closeStdin | exit =>
    obtain rfl := Option.some.inj hstep
    exact hphase

/-- A response that a round trip returns carries its id and ends its message, and the round trip returns
once. In orderly runs, once the reader has stopped, all round trips on the handle return and no job is
left, without the process doing anything more. -/
theorem jobs_answered :
    (Reachable (workerHandle n lineBytes capacity) s → ∀ i message result,
      s.dispatches i = .returned message result →
        (∀ r, result = .ok r → r.id = message.id ∧ message.selects r = true) ∧
          ∀ l t, workerStep lineBytes capacity s l = some t →
            t.dispatches i = .returned message result) ∧
    (Reach (workerHandle n lineBytes capacity) (Orderly lineBytes) s → s.reader = .stopped →
      Settles (workerHandle n lineBytes capacity) (Orderly lineBytes) IsInner AllReturn s) := by
  refine ⟨fun h i message result hphase => ⟨fun r hr => ?_, fun l t => returned_final hphase⟩,
    fun h hstopped => ?_⟩
  · exact (JobsState.of_reachable h).answered i message r (by rw [hphase, hr]; rfl)
  · refine Settles.of_measure (load lineBytes) (I := fun t => Swept lineBytes t ∧ t.reader = .stopped)
      ?_ ?_ ⟨.of_reach h, hstopped⟩
    · intro t l u ⟨hswept, hstopped⟩ hinner horderly hstep
      have hstep : workerStep lineBytes capacity t l = some u := hstep
      have hswept' := hswept.step horderly hstep
      cases l with
      | dispatch i =>
        have hadvances : Advances lineBytes i t u := dispatchStep_advances hstep
        exact ⟨⟨hswept', hadvances.reader ▸ hstopped⟩, hadvances.lower⟩
      | writer =>
        have hworks : Works lineBytes t u := writerStep_works hstep
        exact ⟨⟨hswept', hworks.reader ▸ hstopped⟩, hworks.lower⟩
      | reaper contended =>
        have hworks : Works lineBytes t u := reaperStep_works hstep
        exact ⟨⟨hswept', hworks.reader ▸ hstopped⟩, hworks.lower⟩
      | reader =>
        simp only [workerStep, WorkerHandle.readerStep, hstopped] at hstep
        cases hstep
      | _ => cases hinner
    · rintro t ⟨hswept, hstopped⟩ hquiet
      exact allReturn_of_quiet hswept hstopped hquiet

/-! ## Two round trips -/

/-- Two round trips, of ten bytes each. -/
def twoJobs : System (WorkerHandle 2) (WorkerStep 2) := workerHandle 2 (fun _ => 9) 64

def buildMessage : WorkerMessage := .Run ⟨"app#build", "tsc", false⟩

def testMessage : WorkerMessage := .Run ⟨"app#test", "jest", false⟩

/-- The first round trip spawns the process and waits for its response. -/
def spawned : List (WorkerStep 2) := .spawn 0 buildMessage :: List.replicate 3 (.dispatch 0)

/-- The second one finds the handle alive, and is about to register its job. -/
def found : List (WorkerStep 2) := .call 1 testMessage :: List.replicate 2 (.dispatch 1)

/-- The process closes its stdout, and the reader clears the jobs and stops. -/
def eof : List (WorkerStep 2) := .closeStdout :: List.replicate 2 .reader

/-- Labels that are orderly in whatever state. -/
def Plain (s : WorkerHandle 2) : WorkerStep 2 → Prop
  | .dispatch _ => s.reader ≠ .stopped
  | .reader => s.stdinClosed = true ∨ s.reader ≠ .crash
  | _ => True

instance (s : WorkerHandle 2) : DecidablePred (Plain s)
  | .dispatch _ => inferInstanceAs (Decidable (s.reader ≠ .stopped))
  | .reader => inferInstanceAs (Decidable (s.stdinClosed = true ∨ s.reader ≠ .crash))
  | .call _ _ | .spawn _ _ | .writer | .reaper _ | .emit _ | .closeStdout | .drain _ | .closeStdin
  | .exit => inferInstanceAs (Decidable True)

theorem orderly_of_plain (s : WorkerHandle 2) (l : WorkerStep 2) (h : Plain s l) :
    Orderly (fun _ => 9) s l := by
  cases l with
  | dispatch i => exact ⟨fun _ _ hstopped => absurd hstopped h, fun _ _ hstopped => absurd hstopped h⟩
  | reader => exact fun hcrash => h.elim .inl fun hne => absurd hcrash hne
  | _ => trivial

/-- The first job is answered, and the process is gone while the second one waits. -/
theorem jobs_answered_gone : ∃ s, Reach twoJobs (Orderly fun _ => 9) s ∧
    (s.dispatches 0 = .returned buildMessage (.ok (.Done "app#build" 0 none)) ∧
      ∀ l t, workerStep (fun _ => 9) 64 s l = some t →
        t.dispatches 0 = .returned buildMessage (.ok (.Done "app#build" 0 none))) ∧
    s.dispatches 1 = .await testMessage ∧ s.reader = .stopped ∧
    Settles twoJobs (Orderly fun _ => 9) IsInner AllReturn s := by
  have hrun : (twoJobs.run Plain (.initial 2 64) (spawned ++ found ++ List.replicate 3 (.dispatch 1) ++
      .emit (.response (.Done "app#build" 0 none)) :: List.replicate 3 .reader ++
      List.replicate 2 (.dispatch 0) ++ .closeStdin :: eof)).map
      (fun s => (s.dispatches 0, s.dispatches 1, s.reader)) =
        some (.returned buildMessage (.ok (.Done "app#build" 0 none)), .await testMessage, .stopped) := by
    decide
  obtain ⟨s, hs, heq⟩ := Option.map_eq_some_iff.1 hrun
  obtain ⟨hfirst, heq⟩ := Prod.mk.inj heq
  obtain ⟨hsecond, hreader⟩ := Prod.mk.inj heq
  have hreach : Reach twoJobs (Orderly fun _ => 9) s :=
    Reach.run_of_labels (.init rfl) (fun s l _ => orderly_of_plain s l) hs
  exact ⟨s, hreach, ⟨hfirst, (jobs_answered.1 hreach.reachable 0 _ _ hfirst).2⟩, hsecond, hreader,
    jobs_answered.2 hreach hreader⟩

/-- The reader has stopped, and a job will not be answered unless the process does something. -/
def Stuck (s : WorkerHandle 2) : Prop :=
  Reachable twoJobs s ∧ s.reader = .stopped ∧ ¬ Settles twoJobs (fun _ _ => True) IsInner AllReturn s

theorem stuck_of_run {ls : List (WorkerStep 2)}
    (h : (twoJobs.run (fun _ _ => True) (.initial 2 64) ls).map (fun s =>
      (s.reader, ((s.dispatchStep 0).isNone, (s.dispatchStep 1).isNone),
        ((s.writerStep fun _ => 9).isNone, s.gone), decide (0 < rank (fun _ => 9) (s.dispatches 1)))) =
      some (.stopped, (true, true), (true, false), true))
    (hreaper : (twoJobs.run (fun _ _ => True) (.initial 2 64) ls).map (·.reaper) = some .wait) :
    ∃ s, Stuck s := by
  obtain ⟨s, hs, heq⟩ := Option.map_eq_some_iff.1 h
  obtain ⟨hreader, heq⟩ := Prod.mk.inj heq
  obtain ⟨hdispatch, heq⟩ := Prod.mk.inj heq
  obtain ⟨hzero, hone⟩ := Prod.mk.inj hdispatch
  obtain ⟨hrest, hrank⟩ := Prod.mk.inj heq
  obtain ⟨hwriter, hgone⟩ := Prod.mk.inj hrest
  rw [hs] at hreaper
  have hreaper : s.reaper = .wait := Option.some.inj hreaper
  refine ⟨s, .run (.init rfl) hs, hreader, not_settles_of_quiet ?_ fun hreturn => ?_⟩
  · intro l hl
    show workerStep (fun _ => 9) 64 s l = none
    cases l with
    | dispatch i =>
      match i with
      | 0 => exact Option.isNone_iff_eq_none.1 hzero
      | 1 => exact Option.isNone_iff_eq_none.1 hone
    | writer => exact Option.isNone_iff_eq_none.1 hwriter
    | reader => simp only [workerStep, WorkerHandle.readerStep, hreader]
    | reaper contended =>
      simp only [workerStep, WorkerHandle.reaperStep, hreaper, hgone, Bool.false_eq_true, if_false]
    | _ => cases hl
  · have hrank := of_decide_eq_true hrank
    rcases hreturn.2 1 with hphase | ⟨message, hphase⟩ | ⟨message, result, hphase⟩
    all_goals
      rw [hphase] at hrank
      exact Nat.lt_irrefl 0 hrank

/-- A job is registered after the reader has cleared the jobs. One is registered after reader and writer
have, and its message handed over before the writer drops its receiver. -/
theorem jobs_stuck : (∃ s, Stuck s) ∧ ∃ s, Stuck s := by
  refine ⟨?_, ?_⟩
  · exact @stuck_of_run (found ++ eof ++ List.replicate 3 (.dispatch 1) ++ List.replicate 3 .writer)
      (by decide) (by decide)
  · exact @stuck_of_run (spawned ++ found ++ .closeStdin :: eof ++ List.replicate 3 .writer ++
      List.replicate 3 (.dispatch 1) ++ [.writer] ++ List.replicate 2 (.dispatch 0)) (by decide) (by decide)

end Luchta.Proof.Worker
