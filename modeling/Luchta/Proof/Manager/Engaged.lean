import Luchta.Proof.Manager.Custody

/-!
# What is under way on the handles of a manager

* `Linked`: a dispatch has its round trip where the manager says that it has.
* `Sound`: a job that is in the map of a handle is going to be cleared, or to find the writer gone.
* `Engaged`: both, in whatever state the shutdown is.
-/

namespace Luchta.Proof.Manager

open Luchta.Framework Luchta.Impl Luchta.Proof.Worker

variable {n : Nat} {i : Fin n}

/-! ## Round trips -/

/-- It has not made anything known to the handle. -/
def early : DispatchPhase → Bool
  | .idle | .checkExited _ | .checkWriter _ | .elsewhere _ => true
  | _ => false

def working : DispatchPhase → Bool
  | .insert _ | .cloneWriter _ | .enqueue _ | .await _ | .remove _ _ => true
  | _ => false

/-- It has got its response, or will not get one. -/
def settled : DispatchPhase → Bool
  | .remove _ _ | .returned _ _ => true
  | _ => false

/-- A round trip of the dispatch on the handle may be in the phase. -/
def Linked (phase : ManagerPhase n) (h : Fin n) (inner : DispatchPhase) : Prop :=
  match phase with
  | .on _ handle _ => if h = handle then working inner = true else early inner = true
  | .evict _ handle => if h = handle then settled inner = true else early inner = true
  | .returned _ => early inner = true ∨ isReturned inner = true
  | _ => early inner = true

/-- It has passed the flag, and has no handle yet. -/
def pending : ManagerPhase n → Bool
  | .lookup _ _ _ | .reuse _ _ _ | .evictDead _ _ _ _ | .definition _ _ | .lockSpawn _ _ | .spawn _ _
  | .register _ _ => true
  | _ => false

theorem jobId_of_early {phase : DispatchPhase} (h : early phase = true) : jobId phase = none := by
  cases phase with
  | idle | checkExited message | checkWriter message | elsewhere message => rfl
  | _ => cases h

theorem not_working_of_early {phase : DispatchPhase} (h : early phase = true) :
    ¬ working phase = true := by
  cases phase with
  | idle | checkExited message | checkWriter message | elsewhere message => exact Bool.false_ne_true
  | _ => cases h

/-- Before it has a handle, nothing is known of the dispatch anywhere. -/
theorem Linked.early {phase : ManagerPhase n} {h : Fin n} {inner : DispatchPhase}
    (hlinked : Linked phase h inner) (hpast : past phase = false) : early inner = true := by
  cases phase with
  | on worker handle evicted | evict worker handle | returned result => cases hpast
  | _ => exact hlinked

theorem Linked.of_early {phase : ManagerPhase n} {h : Fin n} {inner : DispatchPhase}
    (hearly : Manager.early inner = true) (hhandle : handleOf phase = some h → past phase = false) :
    Linked phase h inner := by
  cases phase with
  | on worker handle evicted =>
    have hne : h ≠ handle := by
      rintro rfl
      cases hhandle rfl
    simpa [Linked, hne] using hearly
  | evict worker handle =>
    have hne : h ≠ handle := by
      rintro rfl
      cases hhandle rfl
    simpa [Linked, hne] using hearly
  | returned result => exact .inl hearly
  | _ => exact hearly

/-- The round trip of a dispatch that looks for a handle finds it dead or alive. -/
theorem early_step {h h' : WorkerHandle n} (hearly : early (h.dispatches i) = true)
    (hstep : h.dispatchStep i = some h') :
    early (h'.dispatches i) = true ∨ ∃ message, h'.dispatches i = .insert message := by
  have hfollows := dispatchStep_follows hstep
  generalize h.dispatches i = phase at hfollows hearly
  generalize h'.dispatches i = phase' at hfollows
  cases hfollows with
  | exited message _ | running message | noWriter message _ => exact .inl rfl
  | alive message => exact .inr ⟨message, rfl⟩
  | _ => cases hearly

theorem working_step {h h' : WorkerHandle n} (hworking : working (h.dispatches i) = true)
    (hstep : h.dispatchStep i = some h') :
    working (h'.dispatches i) = true ∨ isReturned (h'.dispatches i) = true := by
  have hfollows := dispatchStep_follows hstep
  generalize h.dispatches i = phase at hfollows hworking
  generalize h'.dispatches i = phase' at hfollows
  cases hfollows with
  | exited message _ | running message | noWriter message _ | alive message => cases hworking
  | remove message result => exact .inr rfl
  | _ => exact .inl rfl

/-- What the manager makes of a step of the round trip fits what it has come to. -/
theorem linked_following {h h' : WorkerHandle n} {worker : String} {handle : Fin n} {evicted : Bool}
    (hworking : working (h.dispatches i) = true) (hstep : h.dispatchStep i = some h') :
    Linked (WorkerManager.following worker handle evicted (h.dispatches i) (h'.dispatches i)) handle
      (h'.dispatches i) := by
  have hgoes := working_step hworking hstep
  generalize h.dispatches i = phase
  generalize h'.dispatches i = phase' at hgoes
  unfold WorkerManager.following
  split
  · simp [Linked, settled]
  · split
    · exact .inr rfl
    · simp [Linked, settled]
  · exact .inr rfl
  · rename_i hnot _
    rcases hgoes with hworking | hreturned
    · simpa [Linked] using hworking
    · cases phase' with
      | returned message result => exact (hnot _ _ rfl).elim
      | _ => cases hreturned

/-! ## Handles -/

/-- The conditions of `Worker.Orderly` on a round trip, as far as a process that is going to be gone asks
for them. -/
def OrderlyTrip (h : WorkerHandle n) (i : Fin n) : Prop :=
  (∀ message, h.dispatches i = .insert message → h.reader = .stopped →
    h.stdinClosed = true ∨ h.writerTx = false ∨ Reaping h) ∧
  ∀ message, h.dispatches i = .enqueue message → h.reader = .stopped → h.writer = .ending →
    Reaping h ∨ ¬ Alive h.jobs i

/-- How far the shutdown of a handle has come, if it has begun. -/
def stage : ShutdownPhase n → Fin n → Nat
  | .close .takeWriter handle _, h => if h = handle then 0 else 3
  | .close .abortTasks handle _, h => if h = handle then 2 else 3
  | .close .swap _ _, _ => 3
  | .close _ handle _, h => if h = handle then 1 else 3
  | _, _ => 3

/-- It is about to find that there is no writer, or to remove its job. -/
def leaving : DispatchPhase → Bool
  | .cloneWriter _ | .remove _ _ => true
  | _ => false

structure Closed (stage : Nat) (h : WorkerHandle n) : Prop where
  writer : 1 ≤ stage → h.writerTx = false
  jobs : 2 ≤ stage → ∀ i, Alive h.jobs i → leaving (h.dispatches i) = true
  tasks : 3 ≤ stage → h.reader = .stopped ∧ h.writer = .ended

structure Sound (shut : Bool) (stage : Nat) (h : WorkerHandle n) : Prop where
  jobs : JobsState h
  hearing : shut = false → Hearing h
  closed : shut = true → Closed stage h
  pipes : h.gone = true → h.stdinClosed = true ∧ h.stdoutClosed = true

/-- What the manager leaves to the tasks of the handle and to its process, but for its end. -/
def isTask : WorkerStep n → Bool
  | .call _ _ | .spawn _ _ | .dispatch _ | .exit => false
  | _ => true

structure TaskFrame (h h' : WorkerHandle n) : Prop where
  dispatches : h'.dispatches = h.dispatches
  gone : h'.gone = h.gone
  stdin : h.stdinClosed = true → h'.stdinClosed = true
  stdout : h.stdoutClosed = true → h'.stdoutClosed = true
  writerTx : h.writerTx = false → h'.writerTx = false
  reader : h.reader = .stopped → h'.reader = .stopped
  writer : h.writer = .ended → h'.writer = .ended

theorem taskFrame {h h' : WorkerHandle n} {lineBytes : WorkerMessage → Nat} {capacity : Nat}
    {l : WorkerStep n} (hl : isTask l = true) (hstep : workerStep lineBytes capacity h l = some h') :
    TaskFrame h h' := by
  cases l with
  | call i message | spawn i message | dispatch i | exit => cases hl
  | writer =>
    have hstep : h.writerStep lineBytes = some h' := hstep
    unfold WorkerHandle.writerStep at hstep
    repeat' split at hstep
    all_goals first
      | contradiction
      | (obtain rfl := Option.some.inj hstep; constructor <;> simp_all [WorkerHandle.crashAllJobs])
  | reader =>
    have hstep : h.readerStep = some h' := hstep
    unfold WorkerHandle.readerStep at hstep
    repeat' split at hstep
    all_goals first
      | contradiction
      | (obtain rfl := Option.some.inj hstep; constructor <;> simp_all [WorkerHandle.crashAllJobs])
  | reaper contended =>
    have hstep : h.reaperStep contended = some h' := hstep
    unfold WorkerHandle.reaperStep at hstep
    repeat' split at hstep
    all_goals first
      | contradiction
      | (obtain rfl := Option.some.inj hstep; constructor <;> simp_all [WorkerHandle.crashAllJobs])
  | emit line =>
    simp only [workerStep] at hstep
    split at hstep
    · cases hstep
    · obtain rfl := Option.some.inj hstep
      exact ⟨rfl, rfl, id, id, id, id, id⟩
  | drain bytes =>
    obtain ⟨-, heq⟩ := Option.ite_none_right_eq_some.1 hstep
    obtain rfl := Option.some.inj heq
    exact ⟨rfl, rfl, id, id, id, id, id⟩
  | closeStdout =>
    obtain rfl := Option.some.inj hstep
    exact ⟨rfl, rfl, id, fun _ => rfl, id, id, id⟩
  | closeStdin =>
    obtain rfl := Option.some.inj hstep
    exact ⟨rfl, rfl, fun _ => rfl, id, id, id, id⟩

theorem hearing_task {h h' : WorkerHandle n} (hhearing : Hearing h) {lineBytes : WorkerMessage → Nat}
    {capacity : Nat} {l : WorkerStep n} (hl : isTask l = true)
    (hstep : workerStep lineBytes capacity h l = some h') : Hearing h' := by
  cases l with
  | call i message | spawn i message | dispatch i | exit => cases hl
  | writer => exact hhearing.writerStep hstep
  | reader => exact Hearing.readerStep hstep
  | reaper contended => exact hhearing.reaperStep hstep
  | emit line =>
    simp only [workerStep] at hstep
    split at hstep
    · cases hstep
    · obtain rfl := Option.some.inj hstep
      exact hhearing
  | drain bytes =>
    obtain ⟨-, heq⟩ := Option.ite_none_right_eq_some.1 hstep
    obtain rfl := Option.some.inj heq
    exact hhearing
  | closeStdout =>
    obtain rfl := Option.some.inj hstep
    exact hhearing
  | closeStdin =>
    obtain rfl := Option.some.inj hstep
    exact hhearing.closeStdin

/-- Where there is no writer, a round trip gets no further than to remove its job. -/
theorem leaving_step {h : WorkerHandle n} {phase phase' : DispatchPhase}
    (hbefore : leaving phase = true ∨ ∃ message, phase = .insert message)
    (hopen : isReturned phase' = false) (hwriter : h.writerTx = false) (hfollows : Follows h phase phase') :
    leaving phase' = true := by
  cases hfollows with
  | insert message | notCloned message error => rfl
  | clone message hsome =>
    rw [hwriter] at hsome
    cases hsome
  | remove message result => cases hopen
  | _ =>
    rcases hbefore with hleaving | ⟨message', heq⟩
    · cases hleaving
    · cases heq

namespace Sound

variable {h h' : WorkerHandle n} {shut : Bool} {stage : Nat} {phase : DispatchPhase}

theorem initial (capacity : Nat) : Sound false stage (.initial n capacity) where
  jobs := by
    have hstart : Reachable (workerHandle n (fun _ => 0) capacity) (.initial n capacity) := .init rfl
    exact .of_reachable hstart
  hearing _ := .clear rfl
  closed hshut := by cases hshut
  pipes hgone := by cases hgone

/-- A round trip begins. -/
theorem begin (hsound : Sound shut stage h) (hearly : early (h.dispatches i) = true)
    (hreturned : isReturned phase = false) (hanswer : answer phase = none) :
    Sound shut stage (h.setDispatch i phase) := by
  have hid := jobId_of_early hearly
  have hdead := not_alive_of_jobId hsound.jobs hid
  refine ⟨Jobs.silent hsound.jobs (.inl hid) hreturned hanswer, fun hshut => ?_, fun hshut => ?_,
    hsound.pipes⟩
  · exact (hsound.hearing hshut).go (fun _ => id) fun hi => absurd hi hdead
  · obtain ⟨hwriter, hjobs, htasks⟩ := hsound.closed hshut
    refine ⟨hwriter, fun hle j hj => ?_, htasks⟩
    have hji : j ≠ i := by
      rintro rfl
      exact hdead hj
    exact (congrArg leaving (Function.update_of_ne hji _ _)).trans (hjobs hle j hj)

theorem dispatchStep (hsound : Sound shut stage h) (horderly : shut = false → OrderlyTrip h i)
    (hstep : h.dispatchStep i = some h') : Sound shut stage h' := by
  have hadvances : Advances (fun _ => 0) i h h' := dispatchStep_advances hstep
  have hsame := SameFlags.of_dispatchStep hstep
  refine ⟨hsound.jobs.dispatchStep hstep, fun hshut => ?_, fun hshut => ?_, fun hgone => ?_⟩
  · refine (hsound.hearing hshut).dispatchStep hsound.jobs (fun message hphase => ?_)
      (fun message hphase hending hi => ?_) hstep
    · by_cases hreader : h.reader = .stopped
      · rcases (horderly hshut).1 message hphase hreader with hclosed | hnone | hreaping
        · exact .inr (.inr (.inl hclosed))
        · exact .inr (.inr (.inr hnone))
        · exact .inl hreaping
      · exact .inr (.inl hreader)
    · by_cases hreader : h.reader = .stopped
      · exact .inl (((horderly hshut).2 message hphase hreader hending).resolve_right
          (not_not_intro hi))
      · exact .inr hreader
  · obtain ⟨hwriter, hjobs, htasks⟩ := hsound.closed hshut
    have hreader := congrArg WorkerHandle.reader hadvances.frame
    have hwriterTask := congrArg WorkerHandle.writer hadvances.frame
    refine ⟨fun hle => hsame.2.2.2.trans (hwriter hle), fun hle j hj => ?_,
      fun hle => ⟨hreader.trans (htasks hle).1, hwriterTask.trans (htasks hle).2⟩⟩
    by_cases hji : j = i
    · subst hji
      have hopen : isReturned (h'.dispatches j) = false := by
        obtain ⟨k, hk⟩ := hj
        exact ((hsound.jobs.dispatchStep hstep).registered k j hk).2
      have hbefore : leaving (h.dispatches j) = true ∨ ∃ message, h.dispatches j = .insert message :=
        (alive_of_step hstep hj).imp (hjobs hle j) And.right
      exact leaving_step hbefore hopen (hwriter (Nat.le_of_lt hle)) (dispatchStep_follows hstep)
    · obtain ⟨phase, hdispatches⟩ := hadvances.dispatches
      have halive : Alive h.jobs j := (alive_of_step hstep hj).resolve_right fun hi => hji hi.1
      rw [hdispatches, Function.update_of_ne hji]
      exact hjobs hle j halive
  · have hstdin := congrArg WorkerHandle.stdinClosed hadvances.frame
    have hstdout := congrArg WorkerHandle.stdoutClosed hadvances.frame
    obtain ⟨hclosed, hclosed'⟩ := hsound.pipes (hsame.1.symm.trans hgone)
    exact ⟨hstdin.trans hclosed, hstdout.trans hclosed'⟩

/-- The tasks of a handle and its process go on; those of one that is shut down leave its jobs alone. -/
theorem task (hsound : Sound shut stage h) {lineBytes : WorkerMessage → Nat} {capacity : Nat}
    {l : WorkerStep n} (hl : isTask l = true) (hstep : workerStep lineBytes capacity h l = some h') :
    Sound shut stage (if shut then { h' with jobs := h.jobs } else h') := by
  have hjobs := hsound.jobs.step hstep
  have hframe := taskFrame hl hstep
  have hpipes : h'.gone = true → h'.stdinClosed = true ∧ h'.stdoutClosed = true := fun hgone =>
    (hsound.pipes (hframe.gone.symm.trans hgone)).imp hframe.stdin hframe.stdout
  cases shut with
  | false =>
    exact ⟨hjobs, fun _ => hearing_task (hsound.hearing rfl) hl hstep, fun hshut => (by cases hshut),
      hpipes⟩
  | true =>
    obtain ⟨hwriter, halive, htasks⟩ := hsound.closed rfl
    refine ⟨⟨fun k j hj => ?_, hjobs.responses, hjobs.sending, hjobs.answered⟩,
      fun hshut => (by cases hshut), fun _ => ⟨fun hle => hframe.writerTx (hwriter hle), fun hle j hj => ?_,
        fun hle => (htasks hle).imp hframe.reader hframe.writer⟩, hpipes⟩
    · have hregistered := hsound.jobs.registered k j hj
      rw [← hframe.dispatches] at hregistered
      exact hregistered
    · have hleaving := halive hle j hj
      rw [← hframe.dispatches] at hleaving
      exact hleaving

theorem exit (hsound : Sound shut stage h) :
    Sound shut stage { h with gone := true, stdinClosed := true, stdoutClosed := true } where
  jobs := hsound.jobs
  hearing hshut := (hsound.hearing hshut).closeStdin.exit
  closed hshut := ⟨(hsound.closed hshut).writer, (hsound.closed hshut).jobs, (hsound.closed hshut).tasks⟩
  pipes _ := ⟨rfl, rfl⟩

/-! ## Shutting down -/

theorem mark (hsound : Sound shut stage h) : Sound true 0 h where
  jobs := hsound.jobs
  hearing hshut := by cases hshut
  closed _ := ⟨fun hle => absurd hle (by decide), fun hle => absurd hle (by decide),
    fun hle => absurd hle (by decide)⟩
  pipes := hsound.pipes

theorem takeWriter (hsound : Sound true stage h) : Sound true 1 { h with writerTx := false } where
  jobs := hsound.jobs
  hearing hshut := by cases hshut
  closed _ := ⟨fun _ => rfl, fun hle => absurd hle (by decide), fun hle => absurd hle (by decide)⟩
  pipes := hsound.pipes

theorem crashJobs (hsound : Sound true 1 h) : Sound true 2 h.crashAllJobs where
  jobs := Jobs.clear hsound.jobs
  hearing hshut := by cases hshut
  closed _ := ⟨fun _ => (hsound.closed rfl).writer (Nat.le_refl 1),
    fun _ j hj => absurd hj (not_alive_empty j), fun hle => absurd hle (by decide)⟩
  pipes := hsound.pipes

theorem abortTasks (hsound : Sound true 2 h) :
    Sound true 3 { h with reader := .stopped, writer := .ended } where
  jobs := Jobs.read hsound.jobs (by simp)
  hearing hshut := by cases hshut
  closed _ := ⟨fun _ => (hsound.closed rfl).writer (by decide),
    fun _ => (hsound.closed rfl).jobs (Nat.le_refl 2), fun _ => ⟨rfl, rfl⟩⟩
  pipes := hsound.pipes

end Sound

/-! ## The manager -/

def begun : ShutdownPhase n → Bool
  | .idle | .swap => false
  | _ => true

structure Engaged (s : WorkerManager n) : Prop where
  linked : ∀ j h, Linked (s.dispatches j) h ((s.handles h).dispatches j)
  sound : ∀ h, Sound (s.shut h) (stage s.shutdown h) (s.handles h)
  spawned : ∀ j h, handleOf (s.dispatches j) = some h → (s.spawned h).isSome = true
  flag : s.isShutdown = begun s.shutdown
  returned : s.shutdown = .returned →
    (∀ w, s.workers.lookup w = none) ∧ ∀ i, pending (s.dispatches i) = false

namespace Engaged

variable {s t : WorkerManager n} {phase : ManagerPhase n} {workers : HashMap String (Fin n)}
  {lock : Option (Fin n)}

theorem not_returned (he : Engaged s) (hpending : pending (s.dispatches i) = true) :
    s.shutdown ≠ .returned := by
  intro hreturned
  rw [(he.returned hreturned).2 i] at hpending
  cases hpending

theorem early (he : Engaged s) (hpast : past (s.dispatches i) = false) (h : Fin n) :
    Manager.early ((s.handles h).dispatches i) = true := (he.linked i h).early hpast

/-- A dispatch goes on, with its round trip on the handle. -/
theorem move (he : Engaged s) {handle : Fin n} {h' : WorkerHandle n}
    (hothers : ∀ j, j ≠ i → h'.dispatches j = (s.handles handle).dispatches j)
    (hsound : Sound (s.shut handle) (stage s.shutdown handle) h')
    (hlinked : Linked phase handle (h'.dispatches i))
    (hrest : ∀ h, h ≠ handle → Linked phase h ((s.handles h).dispatches i))
    (hspawned : ∀ h, handleOf phase = some h → (s.spawned h).isSome = true)
    (hreturned : s.shutdown = .returned →
      (∀ w, workers.lookup w = none) ∧ pending phase = false) :
    Engaged { s with
      workers := workers
      spawnLock := lock
      dispatches := Function.update s.dispatches i phase
      handles := Function.update s.handles handle h' } := by
  refine ⟨fun j h => ?_, fun h => ?_, ?_, he.flag, fun hreturn => ?_⟩
  · dsimp only
    by_cases hji : j = i
    · subst hji
      rw [Function.update_self]
      by_cases hh : h = handle
      · subst hh
        rwa [Function.update_self]
      · rw [Function.update_of_ne hh]
        exact hrest h hh
    · rw [Function.update_of_ne hji]
      by_cases hh : h = handle
      · subst hh
        rw [Function.update_self, hothers j hji]
        exact he.linked j h
      · rw [Function.update_of_ne hh]
        exact he.linked j h
  · dsimp only
    by_cases hh : h = handle
    · subst hh
      rwa [Function.update_self]
    · rw [Function.update_of_ne hh]
      exact he.sound h
  · exact forall_update (fun p => ∀ h, handleOf p = some h → (s.spawned h).isSome = true) hspawned
      fun j _ => he.spawned j
  · refine ⟨(hreturned hreturn).1, ?_⟩
    exact forall_update (fun p => pending p = false) (hreturned hreturn).2
      fun j _ => (he.returned hreturn).2 j

/-- A dispatch goes on and does nothing on a handle. -/
theorem go (he : Engaged s) (hlinked : ∀ h, Linked phase h ((s.handles h).dispatches i))
    (hspawned : ∀ h, handleOf phase = some h → (s.spawned h).isSome = true)
    (hreturned : s.shutdown = .returned →
      (∀ w, workers.lookup w = none) ∧ pending phase = false) :
    Engaged { s with
      workers := workers
      spawnLock := lock
      dispatches := Function.update s.dispatches i phase } := by
  have hmove : Engaged { s with
      workers := workers
      spawnLock := lock
      dispatches := Function.update s.dispatches i phase
      handles := Function.update s.handles i (s.handles i) } :=
    he.move (fun _ _ => rfl) (he.sound i) (hlinked i) (fun h _ => hlinked h) hspawned hreturned
  rwa [Function.update_eq_self] at hmove

/-- A dispatch that has no handle yet goes on without one, or returns. -/
theorem look (he : Engaged s) (hpast : past (s.dispatches i) = false) (hhandle : handleOf phase = none)
    (hreturned : s.shutdown = .returned →
      (∀ w, workers.lookup w = none) ∧ pending phase = false) :
    Engaged { s with
      workers := workers
      spawnLock := lock
      dispatches := Function.update s.dispatches i phase } := by
  refine he.go (fun h => .of_early (he.early hpast h) fun heq => ?_) (fun h heq => ?_) hreturned
  · rw [hhandle] at heq
    cases heq
  · rw [hhandle] at heq
    cases heq

/-- A process is spawned under a handle that nobody has. -/
theorem spawn (he : Engaged s) (hc : Custody s) {worker : String} {message : WorkerMessage}
    {capacity : Nat} (hphase : s.dispatches i = .spawn worker message) :
    Engaged { (s.setHandle i (.initial n capacity)).setDispatch i (.register worker message) with
      spawned := Function.update s.spawned i (some worker) } := by
  have hpast : past (s.dispatches i) = false := by
    rw [hphase]
    rfl
  have hshut : s.shut i = false := by
    refine Bool.eq_false_of_not_eq_true fun hshut => ?_
    rw [(hc.shut i hshut).1] at hpast
    cases hpast
  have hmono : ∀ h, (s.spawned h).isSome = true →
      (Function.update s.spawned i (some worker) h).isSome = true := by
    intro h hh
    by_cases hhi : h = i
    · rw [hhi, Function.update_self]
      rfl
    · rwa [Function.update_of_ne hhi]
  have hnobody : ∀ j, handleOf (s.dispatches j) ≠ some i := by
    intro j hj
    rw [hc.held j i hj] at hpast
    cases hpast
  refine ⟨fun j h => ?_, fun h => ?_, ?_, he.flag, fun hreturn => ?_⟩
  · show Linked (Function.update s.dispatches i _ j) h ((Function.update s.handles i _ h).dispatches j)
    by_cases hji : j = i
    · subst hji
      rw [Function.update_self]
      by_cases hh : h = j
      · rw [hh, Function.update_self]
        rfl
      · rw [Function.update_of_ne hh]
        exact he.early hpast h
    · rw [Function.update_of_ne hji]
      by_cases hh : h = i
      · rw [hh, Function.update_self]
        exact .of_early rfl fun heq => absurd heq (hnobody j)
      · rw [Function.update_of_ne hh]
        exact he.linked j h
  · show Sound (s.shut h) (stage s.shutdown h) (Function.update s.handles i _ h)
    by_cases hh : h = i
    · rw [hh, Function.update_self, hshut]
      exact .initial capacity
    · rw [Function.update_of_ne hh]
      exact he.sound h
  · refine forall_update (fun p => ∀ h, handleOf p = some h →
      (Function.update s.spawned i (some worker) h).isSome = true) (fun h hh => ?_) fun j _ h hh => ?_
    · cases hh
    · exact hmono h (he.spawned j h hh)
  · exact absurd hreturn (he.not_returned (by rw [hphase]; rfl))

theorem dispatchStep (he : Engaged s) (hc : Custody s) {defined : String → Bool} {capacity : Nat}
    {spawnFails : Bool}
    (horderly : ∀ w handle e, s.dispatches i = .on w handle e → s.shut handle = false →
      OrderlyTrip (s.handles handle) i)
    (hstep : s.dispatchStep defined capacity i spawnFails = some t) : Engaged t := by
  unfold WorkerManager.dispatchStep at hstep
  split at hstep
  case h_1 => cases hstep
  case h_2 => cases hstep
  case h_3 worker message hphase =>
    obtain rfl := Option.some.inj hstep
    have hpast : past (s.dispatches i) = false := by
      rw [hphase]
      rfl
    split
    · exact he.look hpast rfl fun hreturn => ⟨(he.returned hreturn).1, rfl⟩
    · rename_i hflag
      refine he.look hpast rfl fun hreturn => ?_
      rw [he.flag, hreturn] at hflag
      exact absurd rfl hflag
  case h_4 locked worker message hphase =>
    have hpast : past (s.dispatches i) = false := by
      rw [hphase]
      rfl
    have hopen := he.not_returned (i := i) (by rw [hphase]; rfl)
    split at hstep
    · rename_i handle hlookup
      obtain rfl := Option.some.inj hstep
      refine he.move (fun j hji => setDispatch_of_ne _ _ hji)
        ((he.sound handle).begin (he.early hpast handle) rfl rfl) ?_ (fun h _ => he.early hpast h)
        (fun h hh => ?_) fun hreturn => absurd hreturn hopen
      · rw [setDispatch_self]
        rfl
      · obtain rfl := Option.some.inj hh
        rw [(hc.registered worker handle hlookup).1]
        rfl
    · obtain rfl := Option.some.inj hstep
      refine he.look hpast ?_ fun hreturn => absurd hreturn hopen
      cases locked with
      | true => rfl
      | false => rfl
  case h_5 locked worker handle hphase =>
    have hpast : past (s.dispatches i) = false := by
      rw [hphase]
      rfl
    have hopen := he.not_returned (i := i) (by rw [hphase]; rfl)
    have hhandle := he.spawned i handle (by rw [hphase]; rfl)
    obtain ⟨h', hinner, rfl⟩ := Option.map_eq_some_iff.1 hstep
    have hothers : ∀ j, j ≠ i → h'.dispatches j = (s.handles handle).dispatches j :=
      fun j hji => dispatchStep_of_ne hinner hji
    have hearly := he.early hpast handle
    have hsound : Sound (s.shut handle) (stage s.shutdown handle) h' := by
      refine (he.sound handle).dispatchStep (fun _ => ⟨fun m hm => ?_, fun m hm => ?_⟩) hinner
      · rw [hm] at hearly
        cases hearly
      · rw [hm] at hearly
        cases hearly
    have hspawned : ∀ {phase : ManagerPhase n}, handleOf phase = some handle →
        ∀ h, handleOf phase = some h → (s.spawned h).isSome = true := by
      intro phase heq h hh
      obtain rfl := Option.some.inj (heq.symm.trans hh)
      exact hhandle
    unfold WorkerManager.reused
    split
    · rename_i message halive
      refine he.move hothers hsound ?_ (fun h hh => ?_) (hspawned rfl) fun hreturn => absurd hreturn hopen
      · simp [Linked, halive, working]
      · simpa [Linked, hh] using he.early hpast h
    · rename_i message helsewhere
      refine he.move hothers hsound ?_ (fun h _ => he.early hpast h) (hspawned rfl)
        fun hreturn => absurd hreturn hopen
      rw [helsewhere]
      rfl
    · rename_i hnot _
      have hearly' : Manager.early (h'.dispatches i) = true :=
        (early_step hearly hinner).resolve_right fun ⟨message, hm⟩ => hnot message hm
      have hmove : Engaged { s with
          dispatches := Function.update s.dispatches i (s.dispatches i)
          handles := Function.update s.handles handle h' } := by
        refine he.move hothers hsound (.of_early hearly' fun _ => hpast)
          (fun h _ => he.linked i h) (he.spawned i) fun hreturn => absurd hreturn hopen
      rwa [Function.update_eq_self] at hmove
  case h_6 locked worker message handle hphase =>
    have hopen := he.not_returned (i := i) (by rw [hphase]; rfl)
    obtain rfl := Option.some.inj hstep
    refine he.look (by rw [hphase]; rfl) ?_ fun hreturn => absurd hreturn hopen
    cases locked with
    | true => rfl
    | false => rfl
  case h_7 worker message hphase =>
    have hopen := he.not_returned (i := i) (by rw [hphase]; rfl)
    obtain rfl := Option.some.inj hstep
    refine he.look (by rw [hphase]; rfl) ?_ fun hreturn => absurd hreturn hopen
    split
    · rfl
    · rfl
  case h_8 worker message hphase =>
    have hopen := he.not_returned (i := i) (by rw [hphase]; rfl)
    obtain ⟨-, heq⟩ := Option.ite_none_right_eq_some.1 hstep
    obtain rfl := Option.some.inj heq
    exact he.look (by rw [hphase]; rfl) rfl fun hreturn => absurd hreturn hopen
  case h_9 worker message hphase =>
    have hopen := he.not_returned (i := i) (by rw [hphase]; rfl)
    split at hstep
    · obtain rfl := Option.some.inj hstep
      exact he.look (by rw [hphase]; rfl) rfl fun hreturn => absurd hreturn hopen
    · obtain rfl := Option.some.inj hstep
      exact he.spawn hc hphase
  case h_10 worker message hphase =>
    have hopen := he.not_returned (i := i) (by rw [hphase]; rfl)
    have hpast : past (s.dispatches i) = false := by
      rw [hphase]
      rfl
    obtain rfl := Option.some.inj hstep
    refine he.move (fun j hji => setDispatch_of_ne _ _ hji)
      ((he.sound i).begin (he.early hpast i) rfl rfl) ?_ (fun h hh => ?_) (fun h hh => ?_)
      fun hreturn => absurd hreturn hopen
    · simp [Linked, setDispatch_self, working]
    · simpa [Linked, hh] using he.early hpast h
    · obtain rfl := Option.some.inj hh
      rw [hc.registering i worker message hphase]
      rfl
  case h_11 worker handle evicted hphase =>
    obtain ⟨h', hinner, rfl⟩ := Option.map_eq_some_iff.1 hstep
    have hworking : working ((s.handles handle).dispatches i) = true := by
      have hlinked := he.linked i handle
      rw [hphase] at hlinked
      simpa [Linked] using hlinked
    have hfollowing := following_cases worker handle evicted ((s.handles handle).dispatches i)
      (h'.dispatches i)
    refine he.move (fun j hji => dispatchStep_of_ne hinner hji)
      ((he.sound handle).dispatchStep (horderly worker handle evicted hphase) hinner)
      (linked_following hworking hinner) (fun h hh => ?_) (fun h hh => ?_)
      fun hreturn => ⟨(he.returned hreturn).1, ?_⟩
    · have hearly := he.linked i h
      rw [hphase] at hearly
      have hearly : Manager.early ((s.handles h).dispatches i) = true := by
        simpa [Linked, hh] using hearly
      refine .of_early hearly fun heq => ?_
      rcases hfollowing with hf | hf | ⟨result, hf⟩
      all_goals
        rw [hf] at heq
        cases heq
      · exact absurd rfl hh
      · exact absurd rfl hh
    · refine he.spawned i h ?_
      rw [hphase]
      rcases hfollowing with hf | hf | ⟨result, hf⟩
      all_goals
        rw [hf] at hh
        cases hh
      · rfl
      · rfl
    · rcases hfollowing with hf | hf | ⟨result, hf⟩
      all_goals
        rw [hf]
        rfl
  case h_12 worker handle hphase =>
    obtain rfl := Option.some.inj hstep
    have hnone : s.shutdown = .returned →
        ∀ w, (s.evictIfCurrent worker handle).workers.lookup w = none := by
      intro hreturn w
      refine Option.eq_none_iff_forall_ne_some.2 fun h hh => ?_
      have hlookup := Custody.lookup_evictIfCurrent hh
      rw [(he.returned hreturn).1 w] at hlookup
      cases hlookup
    have hlinked : ∀ h, if h = handle then settled ((s.handles h).dispatches i) = true
        else Manager.early ((s.handles h).dispatches i) = true := by
      intro h
      have hlinked := he.linked i h
      rw [hphase] at hlinked
      exact hlinked
    have hhandle := he.spawned i handle (by rw [hphase]; rfl)
    split
    · rename_i message result heq
      refine he.go (fun h => ?_) (fun h hh => by cases hh) fun hreturn => ⟨hnone hreturn, rfl⟩
      by_cases hh : h = handle
      · subst hh
        exact .inr (by rw [heq]; rfl)
      · exact .inl (by simpa [hh] using hlinked h)
    · rename_i hnot
      refine he.go (fun h => ?_) (fun h hh => ?_) fun hreturn => ⟨hnone hreturn, rfl⟩
      · have hlinked := hlinked h
        by_cases hh : h = handle
        · subst hh
          rw [if_pos rfl] at hlinked
          simp only [Linked, if_true]
          cases hinner : (s.handles h).dispatches i with
          | remove message result => rfl
          | returned message result => exact absurd hinner (hnot message result)
          | _ =>
            rw [hinner] at hlinked
            cases hlinked
        · simpa [Linked, hh] using hlinked
      · obtain rfl := Option.some.inj hh
        exact hhandle

/-- The tasks of a handle or its process go on. -/
theorem task (he : Engaged s) {handle : Fin n} {h' : WorkerHandle n} {evicted : Fin n → Bool}
    (hdispatches : h'.dispatches = (s.handles handle).dispatches)
    (hsound : Sound (s.shut handle) (stage s.shutdown handle) h')
    (hworkers : s.shutdown = .returned → ∀ w, workers.lookup w = none) :
    Engaged { s with
      workers := workers
      evicted := evicted
      handles := Function.update s.handles handle h' } := by
  refine ⟨fun j h => ?_, fun h => ?_, he.spawned, he.flag, fun hreturn =>
    ⟨hworkers hreturn, (he.returned hreturn).2⟩⟩
  · dsimp only
    by_cases hh : h = handle
    · subst hh
      rw [Function.update_self, hdispatches]
      exact he.linked j h
    · rw [Function.update_of_ne hh]
      exact he.linked j h
  · dsimp only
    by_cases hh : h = handle
    · subst hh
      rwa [Function.update_self]
    · rw [Function.update_of_ne hh]
      exact he.sound h

theorem runTask (he : Engaged s) {lineBytes : WorkerMessage → Nat} {capacity : Nat} {handle : Fin n}
    {l : WorkerStep n} (hl : isTask l = true)
    (hstep : s.runTask lineBytes capacity handle l = some t) : Engaged t := by
  obtain ⟨h', hinner, rfl⟩ := Option.map_eq_some_iff.1 hstep
  have hsound := (he.sound handle).task hl hinner
  have hdispatches := (taskFrame hl hinner).dispatches
  refine he.task ?_ hsound fun hreturn => (he.returned hreturn).1
  split
  · exact hdispatches
  · exact hdispatches

theorem workerTask (he : Engaged s) {lineBytes : WorkerMessage → Nat} {capacity : Nat} {handle : Fin n}
    {worker : String} {l : WorkerStep n}
    (hstep : s.workerTask lineBytes capacity handle worker l = some t) : Engaged t := by
  cases l with
  | call i message | spawn i message | dispatch i => cases hstep
  | exit =>
    obtain rfl := Option.some.inj hstep
    exact he.task rfl (he.sound handle).exit fun hreturn => (he.returned hreturn).1
  | reaper contended =>
    unfold WorkerManager.workerTask at hstep
    dsimp only at hstep
    split at hstep
    · obtain rfl := Option.some.inj hstep
      have hnone : s.shutdown = .returned →
          ∀ w, (s.evictIfCurrent worker handle).workers.lookup w = none := by
        intro hreturn w
        refine Option.eq_none_iff_forall_ne_some.2 fun h hh => ?_
        have hlookup := Custody.lookup_evictIfCurrent hh
        rw [(he.returned hreturn).1 w] at hlookup
        cases hlookup
      have htask : Engaged { s with
          workers := (s.evictIfCurrent worker handle).workers
          evicted := Function.update s.evicted handle true
          handles := Function.update s.handles handle (s.handles handle) } :=
        he.task rfl (he.sound handle) hnone
      rwa [Function.update_eq_self] at htask
    · exact he.runTask rfl hstep
  | _ => exact he.runTask rfl hstep

/-! ## Shutting down -/

/-- The shutdown goes on with no handle. -/
theorem shutdownTo (he : Engaged s) {after : ShutdownPhase n} {isShutdown : Bool}
    (hstage : ∀ h, stage after h = stage s.shutdown h) (hflag : isShutdown = begun after)
    (hreturned : after = .returned →
      (∀ w, workers.lookup w = none) ∧ ∀ i, pending (s.dispatches i) = false) :
    Engaged { s with isShutdown := isShutdown, workers := workers, shutdown := after } where
  linked := he.linked
  sound h := by
    dsimp only
    rw [hstage]
    exact he.sound h
  spawned := he.spawned
  flag := hflag
  returned := hreturned

/-- The shutdown goes on with the handle that it closes. -/
theorem close (he : Engaged s) {after : ShutdownPhase n} {handle : Fin n} {h' : WorkerHandle n}
    {shut : Fin n → Bool} (hdispatches : h'.dispatches = (s.handles handle).dispatches)
    (hsound : Sound (shut handle) (stage after handle) h')
    (hrest : ∀ h, h ≠ handle → shut h = s.shut h ∧ stage after h = stage s.shutdown h)
    (hbegun : begun after = begun s.shutdown) (hreturned : after ≠ .returned) :
    Engaged { s with
      shut := shut
      shutdown := after
      handles := Function.update s.handles handle h' } := by
  refine ⟨fun j h => ?_, fun h => ?_, he.spawned, he.flag.trans hbegun.symm, fun hreturn =>
    absurd hreturn hreturned⟩
  · dsimp only
    by_cases hh : h = handle
    · subst hh
      rw [Function.update_self, hdispatches]
      exact he.linked j h
    · rw [Function.update_of_ne hh]
      exact he.linked j h
  · dsimp only
    by_cases hh : h = handle
    · subst hh
      rwa [Function.update_self]
    · rw [Function.update_of_ne hh, (hrest h hh).1, (hrest h hh).2]
      exact he.sound h

theorem closeStep (he : Engaged s) (hc : Custody s) {expired : Bool} {phase : ClosePhase}
    {handle : Fin n} {hs : List (Fin n)} (hphase : s.shutdown = .close phase handle hs)
    (hstep : s.closeStep expired handle hs phase = some t) : Engaged t := by
  have hsound := he.sound handle
  rw [hphase] at hsound
  have hshut : phase ≠ .swap → s.shut handle = true := fun hne => (hc.closing phase handle hs hphase hne).1
  -- from one phase to the next, with or without a change of the handle
  have hclose : ∀ {after : ShutdownPhase n} {h' : WorkerHandle n},
      h'.dispatches = (s.handles handle).dispatches → Sound (s.shut handle) (stage after handle) h' →
      (∀ h, h ≠ handle → stage after h = 3) → begun after = true → after ≠ .returned →
      Engaged { s with shutdown := after, handles := Function.update s.handles handle h' } := by
    intro after h' hdispatches hsound hstage hbegun hreturned
    refine he.close hdispatches hsound (fun h hh => ⟨rfl, ?_⟩) ?_ hreturned
    · rw [hstage h hh, hphase]
      cases phase with
      | swap => rfl
      | _ => exact (if_neg hh).symm
    · rw [hbegun, hphase]
      rfl
  have hsame : ∀ {after : ShutdownPhase n}, Sound (s.shut handle) (stage after handle) (s.handles handle) →
      (∀ h, h ≠ handle → stage after h = 3) → begun after = true → after ≠ .returned →
      Engaged { s with shutdown := after } := by
    intro after hsound hstage hbegun hreturned
    have hengaged := hclose rfl hsound hstage hbegun hreturned
    rwa [Function.update_eq_self] at hengaged
  cases phase with
  | swap =>
    obtain rfl := Option.some.inj hstep
    split
    · refine he.shutdownTo (fun h => ?_) ?_ (by simp)
      · rw [hphase]
        rfl
      · rw [he.flag, hphase]
        rfl
    · have hmark : Engaged { s with
          shut := Function.update s.shut handle true
          shutdown := .close .takeWriter handle hs
          handles := Function.update s.handles handle (s.handles handle) } := by
        refine he.close rfl ?_ (fun h hh => ⟨Function.update_of_ne hh _ _, ?_⟩) ?_ (by simp)
        · rw [Function.update_self]
          simpa [stage] using hsound.mark
        · rw [hphase]
          exact if_neg hh
        · rw [hphase]
          rfl
      rwa [Function.update_eq_self] at hmark
  | takeWriter =>
    obtain rfl := Option.some.inj hstep
    rw [hshut (by simp)] at hsound
    refine hclose rfl ?_ (fun h hh => if_neg hh) rfl (by simp)
    rw [hshut (by simp)]
    simpa [stage] using hsound.takeWriter
  | waitExit =>
    unfold WorkerManager.closeStep at hstep
    dsimp only at hstep
    split at hstep
    · obtain rfl := Option.some.inj hstep
      exact hsame hsound (fun h hh => if_neg hh) rfl (by simp)
    · split at hstep
      · obtain rfl := Option.some.inj hstep
        exact hsame hsound (fun h hh => if_neg hh) rfl (by simp)
      · cases hstep
  | waitGrace =>
    obtain ⟨-, heq⟩ := Option.ite_none_right_eq_some.1 hstep
    obtain rfl := Option.some.inj heq
    exact hsame hsound (fun h hh => if_neg hh) rfl (by simp)
  | awaitReaper =>
    obtain ⟨-, heq⟩ := Option.ite_none_right_eq_some.1 hstep
    obtain rfl := Option.some.inj heq
    exact hsame hsound (fun h hh => if_neg hh) rfl (by simp)
  | crashJobs =>
    obtain rfl := Option.some.inj hstep
    rw [hshut (by simp)] at hsound
    refine hclose rfl ?_ (fun h hh => if_neg hh) rfl (by simp)
    rw [hshut (by simp)]
    have hsound : Sound true 1 (s.handles handle) := by simpa [stage] using hsound
    simpa [stage] using hsound.crashJobs
  | abortTasks =>
    obtain rfl := Option.some.inj hstep
    rw [hshut (by simp)] at hsound
    refine hclose rfl ?_ (fun h hh => rfl) rfl (by simp)
    rw [hshut (by simp)]
    have hsound : Sound true 2 (s.handles handle) := by simpa [stage] using hsound
    exact hsound.abortTasks

/-- The last look into the registry finds it empty only where no dispatch is on its way to it. -/
theorem shutdownStep (he : Engaged s) (hc : Custody s) {rs : RandomState} {expired : Bool}
    (horderly : s.shutdown = .collect → s.workers.entries = [] → ∀ i, pending (s.dispatches i) = false)
    (hstep : s.shutdownStep rs expired = some t) : Engaged t := by
  unfold WorkerManager.shutdownStep at hstep
  split at hstep
  case h_1 => cases hstep
  case h_2 => cases hstep
  case h_3 hphase =>
    obtain rfl := Option.some.inj hstep
    split
    · rename_i hflag
      rw [he.flag, hphase] at hflag
      cases hflag
    · refine he.shutdownTo (fun h => ?_) rfl (by simp)
      rw [hphase]
      rfl
  case h_4 hphase =>
    obtain rfl := Option.some.inj hstep
    have hflag : s.isShutdown = true := by
      rw [he.flag, hphase]
      rfl
    split
    · rename_i hempty
      have hentries : s.workers.entries = [] := by
        have hperm := rs.perm (s.workers.entries.map (·.2))
        rw [List.isEmpty_iff.1 hempty] at hperm
        exact List.map_eq_nil_iff.1 hperm.nil_eq.symm
      refine he.shutdownTo (fun h => ?_) hflag fun _ => ⟨fun w => AList.lookup_empty w, ?_⟩
      · rw [hphase]
        rfl
      · exact horderly hphase hentries
    · refine he.shutdownTo (fun h => ?_) hflag (by simp)
      rw [hphase]
      rfl
  case h_5 hphase =>
    obtain rfl := Option.some.inj hstep
    refine he.shutdownTo (fun h => ?_) ?_ (by simp)
    · rw [hphase]
      rfl
    · rw [he.flag, hphase]
      rfl
  case h_6 handle hs hphase =>
    obtain rfl := Option.some.inj hstep
    refine he.shutdownTo (fun h => ?_) ?_ (by simp)
    · rw [hphase]
      rfl
    · rw [he.flag, hphase]
      rfl
  case h_7 phase handle hs hphase => exact he.closeStep hc hphase hstep

end Engaged

end Luchta.Proof.Manager
