import Luchta.Proof.Manager.Engaged

/-!
# What the shutdown of a manager leaves

* `Orderly`: the runs in which no process is left over.
* `shutdown_complete`: once the shutdown has returned there, every process that was spawned is gone, none
  is spawned any more, and every dispatch returns.
* `shutdown_leaks`: two other runs, in which a process is left.
-/

namespace Luchta.Proof.Manager

open Luchta.Framework Luchta.Impl Luchta.Proof.Worker

variable {n : Nat} {defined : String → Bool} {lineBytes : WorkerMessage → Nat} {capacity : Nat}
  {rs : RandomState} {s t : WorkerManager n} {i : Fin n}

/-- A dispatch evicts no process that is not gone, and registers its job only where it will be cleared;
the shutdown does not find the registry empty while a dispatch that has passed the flag has no handle. -/
def Orderly (s : WorkerManager n) : ManagerStep n → Prop
  | .dispatch i _ =>
    (∀ worker handle, s.dispatches i = .evict worker handle → s.workers.lookup worker = some handle →
      (s.handles handle).gone = true) ∧
    ∀ worker handle evicted, s.dispatches i = .on worker handle evicted → s.shut handle = false →
      OrderlyTrip (s.handles handle) i
  | .shutdown _ => s.shutdown = .collect → s.workers.entries = [] → ∀ i, pending (s.dispatches i) = false
  | _ => True

/-! ## Every run -/

structure ManagerInv (s : WorkerManager n) : Prop where
  custody : Custody s
  engaged : Engaged s

theorem Custody.initial : Custody (.initial n capacity) where
  registered w h hlookup := by
    rw [WorkerManager.initial, AList.lookup_empty] at hlookup
    cases hlookup
  tending h hmem := absurd hmem List.not_mem_nil
  shut h hshut := by cases hshut
  closing p h hs hphase := by cases hphase
  accounted h w hspawned := by cases hspawned
  registering i w m hphase := by cases hphase
  truthful h := .initial capacity
  lock i := ⟨False.elim, fun howner => by cases howner⟩
  vacant i := trivial
  held i h hheld := by cases hheld
  dead i l w m h hphase := by cases hphase

theorem Engaged.initial : Engaged (.initial n capacity) where
  linked j h := rfl
  sound h := .initial capacity
  spawned j h hheld := by cases hheld
  flag := rfl
  returned hreturned := by cases hreturned

theorem ManagerInv.step (h : ManagerInv s) {l : ManagerStep n} (horderly : Orderly s l)
    (hstep : managerStep defined lineBytes capacity rs s l = some t) : ManagerInv t := by
  obtain ⟨hc, he⟩ := h
  cases l with
  | call i worker message =>
    simp only [managerStep] at hstep
    split at hstep
    · rename_i hphase
      obtain rfl := Option.some.inj hstep
      constructor
      · exact hc.go (fun j => .refl _) (by simp [past, hphase]) (by simp [hphase]) (by simp)
          (by simp [holdsLock, hphase]) trivial (by simp [handleOf]) (by simp)
      · exact he.look (by rw [hphase]; rfl) rfl fun hreturn => ⟨(he.returned hreturn).1, rfl⟩
    · cases hstep
  | dispatch i spawnFails =>
    exact ⟨hc.dispatchStep horderly.1 hstep, he.dispatchStep hc horderly.2 hstep⟩
  | worker handle step =>
    obtain ⟨worker, -, hstep⟩ := Option.bind_eq_some_iff.1 hstep
    exact ⟨hc.workerTask hstep, he.workerTask hstep⟩
  | callShutdown =>
    simp only [managerStep] at hstep
    split at hstep
    · rename_i hphase
      obtain rfl := Option.some.inj hstep
      constructor
      · refine hc.shutdownTo (fun j => ?_) (fun p j hs _ hclose => ?_) fun p j hs hclose => by cases hclose
        · rw [hphase]
          exact Iff.rfl
        · rw [hphase] at hclose
          cases hclose
      · refine he.shutdownTo (fun h => ?_) ?_ (by simp)
        · rw [hphase]
          rfl
        · rw [he.flag, hphase]
          rfl
    · cases hstep
  | shutdown expired => exact ⟨hc.shutdownStep hstep, he.shutdownStep hc horderly hstep⟩

theorem ManagerInv.of_reach (h : Reach (workerManager n defined lineBytes capacity rs) Orderly s) :
    ManagerInv s := by
  refine h.invariant (I := ManagerInv) (fun s hinit => ?_) fun s l t _ hs horderly hstep =>
    hs.step horderly hstep
  subst hinit
  exact ⟨.initial, .initial⟩

/-- Once the shutdown has returned, nobody has a process that is not gone. -/
theorem ManagerInv.gone (h : ManagerInv s) (hreturned : s.shutdown = .returned) {handle : Fin n}
    {worker : String} (hspawned : s.spawned handle = some worker) : (s.handles handle).gone = true := by
  obtain ⟨hnone, hpending⟩ := h.engaged.returned hreturned
  rcases h.custody.accounted handle worker hspawned with hgone | hlookup | ⟨message, hphase⟩ | htended
  · exact hgone
  · rw [hnone worker] at hlookup
    cases hlookup
  · have hnot := hpending handle
    rw [hphase] at hnot
    cases hnot
  · rw [hreturned] at htended
    cases htended

/-! ## After the shutdown -/

def IsInner : ManagerStep n → Prop
  | .dispatch _ _ | .worker _ .writer | .worker _ .reader | .worker _ (.reaper _) => True
  | _ => False

def AllReturned (s : WorkerManager n) : Prop :=
  ∀ i, s.dispatches i = .idle ∨ ∃ result, s.dispatches i = .returned result

/-- A dispatch spawns a process only where it has come to that. -/
theorem dispatchStep_frame {spawnFails : Bool}
    (hnot : ∀ worker message, s.dispatches i ≠ .spawn worker message)
    (hstep : s.dispatchStep defined capacity i spawnFails = some t) :
    t.shutdown = s.shutdown ∧ t.spawned = s.spawned := by
  unfold WorkerManager.dispatchStep at hstep
  split at hstep
  case h_9 worker message hphase => exact absurd hphase (hnot worker message)
  case h_5 | h_11 =>
    obtain ⟨h', -, rfl⟩ := Option.map_eq_some_iff.1 hstep
    first
      | exact ⟨rfl, rfl⟩
      | (unfold WorkerManager.reused; split <;> exact ⟨rfl, rfl⟩)
  all_goals
    repeat' split at hstep
    all_goals first
      | contradiction
      | (obtain rfl := Option.some.inj hstep; exact ⟨rfl, rfl⟩)

theorem workerTask_frame {handle : Fin n} {worker : String} {l : WorkerStep n}
    (hstep : s.workerTask lineBytes capacity handle worker l = some t) :
    t.shutdown = s.shutdown ∧ t.spawned = s.spawned := by
  have hrun : ∀ {l}, s.runTask lineBytes capacity handle l = some t →
      t.shutdown = s.shutdown ∧ t.spawned = s.spawned := by
    intro l hrun
    obtain ⟨h', -, rfl⟩ := Option.map_eq_some_iff.1 hrun
    exact ⟨rfl, rfl⟩
  cases l with
  | call i message | spawn i message | dispatch i => cases hstep
  | exit =>
    obtain rfl := Option.some.inj hstep
    exact ⟨rfl, rfl⟩
  | reaper contended =>
    unfold WorkerManager.workerTask at hstep
    dsimp only at hstep
    split at hstep
    · obtain rfl := Option.some.inj hstep
      exact ⟨rfl, rfl⟩
    · exact hrun hstep
  | _ => exact hrun hstep

/-- The shutdown stays where it is, and no process is spawned. -/
theorem ManagerInv.final (h : ManagerInv s) (hreturned : s.shutdown = .returned) {l : ManagerStep n}
    (hstep : managerStep defined lineBytes capacity rs s l = some t) :
    t.shutdown = .returned ∧ t.spawned = s.spawned := by
  cases l with
  | call i worker message =>
    simp only [managerStep] at hstep
    split at hstep
    · obtain rfl := Option.some.inj hstep
      exact ⟨hreturned, rfl⟩
    · cases hstep
  | dispatch i spawnFails =>
    have hpending := (h.engaged.returned hreturned).2 i
    have hframe := dispatchStep_frame (fun worker message hphase => ?_) hstep
    · exact ⟨hframe.1.trans hreturned, hframe.2⟩
    · rw [hphase] at hpending
      cases hpending
  | worker handle step =>
    obtain ⟨worker, -, hstep⟩ := Option.bind_eq_some_iff.1 hstep
    have hframe := workerTask_frame hstep
    exact ⟨hframe.1.trans hreturned, hframe.2⟩
  | callShutdown =>
    simp only [managerStep, hreturned] at hstep
    cases hstep
  | shutdown expired =>
    simp only [managerStep, WorkerManager.shutdownStep, hreturned] at hstep
    cases hstep

/-! ## Returning -/

def readerRank : WorkerReader n → Nat
  | .route _ => 5
  | .send _ _ => 4
  | .reading => 2
  | .crash => 1
  | .stopped => 0

/-- What is left to the round trips and to the tasks of a handle. -/
def handleLoad (lineBytes : WorkerMessage → Nat) (h : WorkerHandle n) : Nat :=
  load lineBytes h + (readerRank h.reader + 4 * h.stdout.length)

def phaseRank : ManagerPhase n → Nat
  | .check _ _ | .evict _ _ => 1
  | _ => 0

def evictionRank : Bool → Nat
  | true => 0
  | false => 1

def managerLoad (lineBytes : WorkerMessage → Nat) (s : WorkerManager n) : Nat :=
  ∑ h, 2 * handleLoad lineBytes (s.handles h) + ∑ h, evictionRank (s.evicted h) +
    ∑ i, phaseRank (s.dispatches i)

theorem dispatchStep_lower {h h' : WorkerHandle n} (hstep : h.dispatchStep i = some h') :
    handleLoad lineBytes h' < handleLoad lineBytes h := by
  have hadvances : Advances lineBytes i h h' := dispatchStep_advances hstep
  have hstdout := congrArg WorkerHandle.stdout hadvances.frame
  have hreader := hadvances.reader
  have hlower := hadvances.lower
  have hstdout : h'.stdout = h.stdout := hstdout
  unfold handleLoad
  rw [hreader, hstdout]
  omega

theorem readerStep_lower {h h' : WorkerHandle n} (hstep : h.readerStep = some h') :
    handleLoad lineBytes h' < handleLoad lineBytes h := by
  unfold WorkerHandle.readerStep at hstep
  split at hstep
  case h_1 hreader =>
    split at hstep
    · obtain ⟨-, heq⟩ := Option.ite_none_right_eq_some.1 hstep
      obtain rfl := Option.some.inj heq
      simp [handleLoad, load, queued, readerRank, hreader]
    all_goals
      rename_i hstdout
      obtain rfl := Option.some.inj hstep
      simp [handleLoad, load, queued, readerRank, hreader, hstdout]
      omega
  case h_2 response hreader =>
    obtain rfl := Option.some.inj hstep
    cases h.jobs.lookup response.id with
    | some job => simp [handleLoad, load, queued, readerRank, hreader]
    | none => simp [handleLoad, load, queued, readerRank, hreader]
  case h_3 response job hreader =>
    split at hstep
    · obtain ⟨-, heq⟩ := Option.ite_none_right_eq_some.1 hstep
      obtain rfl := Option.some.inj heq
      have hsum := sum_update List.length h.responses job (h.responses job ++ [response])
      rw [List.length_append, List.length_singleton] at hsum
      simp only [handleLoad, load, queued, readerRank, hreader]
      omega
    · obtain rfl := Option.some.inj hstep
      simp [handleLoad, load, queued, readerRank, hreader]
  case h_4 hreader =>
    obtain rfl := Option.some.inj hstep
    simp [handleLoad, load, queued, readerRank, hreader, WorkerHandle.crashAllJobs]
  case h_5 => cases hstep

theorem works_lower {h h' : WorkerHandle n} (hworks : Works lineBytes h h') (hstdout : h'.stdout = h.stdout) :
    handleLoad lineBytes h' < handleLoad lineBytes h := by
  have hlower := hworks.lower
  unfold handleLoad
  rw [hworks.reader, hstdout]
  omega

theorem writerStep_stdout {h h' : WorkerHandle n} (hstep : h.writerStep lineBytes = some h') :
    h'.stdout = h.stdout := by
  unfold WorkerHandle.writerStep at hstep
  repeat' split at hstep
  all_goals first
    | contradiction
    | (obtain rfl := Option.some.inj hstep; rfl)

theorem reaperStep_stdout {h h' : WorkerHandle n} {contended : Bool}
    (hstep : h.reaperStep contended = some h') : h'.stdout = h.stdout := by
  unfold WorkerHandle.reaperStep at hstep
  repeat' split at hstep
  all_goals first
    | contradiction
    | (obtain rfl := Option.some.inj hstep; rfl)

/-- The load of all handles goes down with that of one. -/
theorem sum_setHandle_lt {handle : Fin n} {h' : WorkerHandle n}
    (hlower : handleLoad lineBytes h' < handleLoad lineBytes (s.handles handle)) :
    ∑ h, 2 * handleLoad lineBytes (Function.update s.handles handle h' h) + 2 ≤
      ∑ h, 2 * handleLoad lineBytes (s.handles h) := by
  have hsum := sum_update (fun h => 2 * handleLoad lineBytes h) s.handles handle h'
  omega

theorem runTask_lower {handle : Fin n} {l : WorkerStep n}
    (hlower : ∀ h', workerStep lineBytes capacity (s.handles handle) l = some h' →
      handleLoad lineBytes h' < handleLoad lineBytes (s.handles handle))
    (hstep : s.runTask lineBytes capacity handle l = some t) :
    managerLoad lineBytes t < managerLoad lineBytes s := by
  obtain ⟨h', hinner, rfl⟩ := Option.map_eq_some_iff.1 hstep
  have hless := hlower h' hinner
  have hless' : handleLoad lineBytes
      (if s.shut handle then { h' with jobs := (s.handles handle).jobs } else h') <
        handleLoad lineBytes (s.handles handle) := by
    split
    · exact hless
    · exact hless
  have hsum := sum_setHandle_lt hless'
  simp only [managerLoad, WorkerManager.setHandle]
  omega

theorem workerTask_lower {handle : Fin n} {worker : String} {l : WorkerStep n}
    (hinner : IsInner (.worker handle l))
    (hstep : s.workerTask lineBytes capacity handle worker l = some t) :
    managerLoad lineBytes t < managerLoad lineBytes s := by
  cases l with
  | writer =>
    refine runTask_lower (fun h' hw => ?_) hstep
    have hw : (s.handles handle).writerStep lineBytes = some h' := hw
    exact works_lower (writerStep_works hw) (writerStep_stdout hw)
  | reader =>
    refine runTask_lower (fun h' hr => ?_) hstep
    have hr : (s.handles handle).readerStep = some h' := hr
    exact readerStep_lower hr
  | reaper contended =>
    unfold WorkerManager.workerTask at hstep
    dsimp only at hstep
    split at hstep
    · rename_i hcrash
      obtain rfl := Option.some.inj hstep
      have hsum := sum_update evictionRank s.evicted handle true
      rw [hcrash.2] at hsum
      simp only [managerLoad, WorkerManager.evictIfCurrent, evictionRank] at hsum ⊢
      omega
    · refine runTask_lower (fun h' hr => ?_) hstep
      have hr : (s.handles handle).reaperStep contended = some h' := hr
      exact works_lower (reaperStep_works hr) (reaperStep_stdout hr)
  | _ => cases hinner

theorem phaseRank_following (worker : String) (handle : Fin n) (evicted : Bool)
    (before after : DispatchPhase) :
    phaseRank (WorkerManager.following worker handle evicted before after) ≤ 1 := by
  rcases following_cases worker handle evicted before after with heq | heq | ⟨result, heq⟩
  all_goals
    rw [heq]
    simp [phaseRank]

theorem dispatchStep_managerLoad {spawnFails : Bool} (hflag : s.isShutdown = true)
    (hpending : pending (s.dispatches i) = false)
    (hstep : s.dispatchStep defined capacity i spawnFails = some t) :
    managerLoad lineBytes t < managerLoad lineBytes s := by
  -- what the phases weigh, if that of the dispatch weighs so much before and after
  have hphase : ∀ (phase : ManagerPhase n) {a b : Nat}, phaseRank (s.dispatches i) = a →
      phaseRank phase ≤ b →
      ∑ j, phaseRank (Function.update s.dispatches i phase j) + a ≤
        ∑ j, phaseRank (s.dispatches j) + b := by
    intro phase a b hbefore hafter
    have hsum := sum_update phaseRank s.dispatches i phase
    omega
  unfold WorkerManager.dispatchStep at hstep
  split at hstep
  case h_3 worker message heq =>
    obtain rfl := Option.some.inj hstep
    rw [if_pos hflag]
    have hbefore : phaseRank (s.dispatches i) = 1 := by
      rw [heq]
      rfl
    have hsum := hphase (.returned (.error (.Crashed message.id))) hbefore (Nat.le_refl 0)
    simp only [managerLoad, WorkerManager.setDispatch]
    omega
  case h_11 worker handle evicted heq =>
    obtain ⟨h', hinner, rfl⟩ := Option.map_eq_some_iff.1 hstep
    have hbefore : phaseRank (s.dispatches i) = 0 := by
      rw [heq]
      rfl
    have hlower : handleLoad lineBytes h' < handleLoad lineBytes (s.handles handle) :=
      dispatchStep_lower hinner
    have hload := sum_setHandle_lt hlower
    have hsum := hphase _ hbefore (phaseRank_following worker handle evicted
      ((s.handles handle).dispatches i) (h'.dispatches i))
    simp only [managerLoad, WorkerManager.setDispatch, WorkerManager.setHandle]
    omega
  case h_12 worker handle heq =>
    obtain rfl := Option.some.inj hstep
    have hbefore : phaseRank (s.dispatches i) = 1 := by
      rw [heq]
      rfl
    have hsum : ∀ phase : ManagerPhase n, phaseRank phase ≤ 0 →
        ∑ j, phaseRank (Function.update s.dispatches i phase j) < ∑ j, phaseRank (s.dispatches j) :=
      fun phase hafter => hphase phase hbefore hafter
    simp only [managerLoad, WorkerManager.setDispatch, WorkerManager.evictIfCurrent]
    refine Nat.add_lt_add_left (hsum _ ?_) _
    split
    · exact Nat.le_refl 0
    · exact Nat.le_refl 0
  case h_1 | h_2 => cases hstep
  all_goals
    rename_i heq
    rw [heq] at hpending
    cases hpending

/-! ## At rest -/

/-- Where the process is gone, nobody waits for the writer. -/
theorem not_enqueue_of_closed {h : WorkerHandle n} (hclosed : h.stdinClosed = true)
    (hwriter : h.writerStep lineBytes = none) (hquiet : h.dispatchStep i = none)
    (message : WorkerMessage) : h.dispatches i ≠ .enqueue message := by
  intro hphase
  unfold WorkerHandle.dispatchStep at hquiet
  rw [hphase] at hquiet
  dsimp only at hquiet
  split at hquiet
  · cases hquiet
  · rename_i hended
    rcases writer_quiet hwriter with ⟨-, hnil⟩ | ⟨-, hopen, -⟩ | hwriter
    · rw [hnil, if_pos (by decide)] at hquiet
      cases hquiet
    · rw [hclosed] at hopen
      cases hopen
    · exact hended hwriter

variable {h : WorkerHandle n} {shut : Bool}

/-- A round trip that cannot go on waits for a response that is not there. -/
theorem await_of_quiet (hclosed : h.stdinClosed = true) (hwriter : h.writerStep lineBytes = none)
    (hworking : working (h.dispatches i) = true) (hquiet : h.dispatchStep i = none) :
    (∃ message, h.dispatches i = .await message) ∧ h.responses i = [] ∧ h.hasSender i = true := by
  cases hphase : h.dispatches i with
  | enqueue message => exact absurd hphase (not_enqueue_of_closed hclosed hwriter hquiet message)
  | await message =>
    unfold WorkerHandle.dispatchStep at hquiet
    rw [hphase] at hquiet
    dsimp only at hquiet
    split at hquiet
    · cases hquiet
    · rename_i hnil
      split at hquiet
      · rename_i hsender
        exact ⟨⟨message, rfl⟩, hnil, hsender⟩
      · cases hquiet
  | idle | checkExited message | checkWriter message | elsewhere message | returned message result =>
    rw [hphase] at hworking
    cases hworking
  | insert message | cloneWriter message | remove message result =>
    unfold WorkerHandle.dispatchStep at hquiet
    rw [hphase] at hquiet
    cases hquiet

/-- The reader has read everything, and waits for no round trip. -/
theorem stopped_of_quiet (hjobs : JobsState h) (hclosed : h.stdinClosed = true)
    (hclosed' : h.stdoutClosed = true) (hwriter : h.writerStep lineBytes = none)
    (hreader : h.readerStep = none)
    (hquiet : ∀ j, working (h.dispatches j) = true → h.dispatchStep j = none) :
    h.reader = .stopped := by
  unfold WorkerHandle.readerStep at hreader
  split at hreader
  case h_1 =>
    split at hreader
    · rw [if_pos hclosed'] at hreader
      cases hreader
    · cases hreader
    · cases hreader
    · cases hreader
  case h_2 => cases hreader
  case h_3 response job hsend =>
    split at hreader
    · rename_i hreceiver
      split at hreader
      · cases hreader
      · rename_i hfull
        have hid := hjobs.sending response job hsend
        have hworking : working (h.dispatches job) = true := by
          unfold WorkerHandle.hasReceiver at hreceiver
          generalize h.dispatches job = phase at hid hreceiver
          cases phase with
          | idle | checkExited message | checkWriter message | elsewhere message | insert message =>
            cases hid
          | returned message result => cases hreceiver
          | _ => rfl
        have hnil := (await_of_quiet hclosed hwriter hworking (hquiet job hworking)).2.1
        rw [hnil] at hfull
        exact absurd (by decide) hfull
    · cases hreader
  case h_4 => cases hreader
  case h_5 hstopped => exact hstopped

/-- No round trip is under way. -/
theorem not_working_of_quiet (hsound : Sound shut 3 h) (hgone : h.gone = true)
    (hwriter : h.writerStep lineBytes = none) (hreader : h.readerStep = none)
    (hreaper : h.reaperStep false = none)
    (hquiet : ∀ j, working (h.dispatches j) = true → h.dispatchStep j = none) :
    working (h.dispatches i) = false := by
  obtain ⟨hclosed, hclosed'⟩ := hsound.pipes hgone
  refine Bool.eq_false_of_not_eq_true fun hworking => ?_
  obtain ⟨⟨message, hphase⟩, -, hsender⟩ := await_of_quiet hclosed hwriter hworking (hquiet i hworking)
  have hstopped := stopped_of_quiet hsound.jobs hclosed hclosed' hwriter hreader hquiet
  have halive := (hasSender_iff hstopped).1 hsender
  cases shut with
  | false =>
    have hhears := ((hsound.hearing rfl i halive).resolve_left
      (not_reaping_of_quiet hreaper)).resolve_left (not_not_intro hstopped)
    rw [hphase] at hhears
    rcases writer_quiet hwriter with ⟨hrecv, hnil⟩ | ⟨-, hopen, -⟩ | hended
    · have hfailing := hhears.2
      rw [hrecv] at hfailing
      exact hfailing hnil
    · rw [hclosed] at hopen
      cases hopen
    · have hfailing := hhears.2
      rw [hended] at hfailing
      exact hfailing
  | true =>
    have hleaving := (hsound.closed rfl).jobs (by decide) i halive
    rw [hphase] at hleaving
    cases hleaving

theorem allReturned_of_quiet (hinv : ManagerInv s) (hreturned : s.shutdown = .returned)
    (hquiet : Quiet (workerManager n defined lineBytes capacity rs) IsInner s) : AllReturned s := by
  have hdispatch : ∀ i, s.dispatchStep defined capacity i false = none := fun i =>
    hquiet (.dispatch i false) trivial
  intro i
  have hpending := (hinv.engaged.returned hreturned).2
  cases hphase : s.dispatches i with
  | idle => exact .inl rfl
  | returned result => exact .inr ⟨result, rfl⟩
  | check worker message | evict worker handle =>
    have hnone := hdispatch i
    unfold WorkerManager.dispatchStep at hnone
    rw [hphase] at hnone
    cases hnone
  | on worker handle evicted =>
    obtain ⟨name, hspawned⟩ := Option.isSome_iff_exists.1
      (hinv.engaged.spawned i handle (by rw [hphase]; rfl))
    have hsound := hinv.engaged.sound handle
    rw [hreturned] at hsound
    have htask : ∀ l, IsInner (.worker handle l) →
        s.workerTask lineBytes capacity handle name l = none := by
      intro l hl
      have hnone := hquiet (.worker handle l) hl
      simp only [workerManager, managerStep, hspawned, Option.bind_some] at hnone
      exact hnone
    have hrun : ∀ {l}, s.runTask lineBytes capacity handle l = none →
        workerStep lineBytes capacity (s.handles handle) l = none := Option.map_eq_none_iff.1
    have hreaper : (s.handles handle).reaperStep false = none := by
      have hnone := htask (.reaper false) trivial
      unfold WorkerManager.workerTask at hnone
      dsimp only at hnone
      split at hnone
      · cases hnone
      · exact hrun hnone
    -- whoever has a round trip on the handle waits for it
    have hinner : ∀ j, working ((s.handles handle).dispatches j) = true →
        (s.handles handle).dispatchStep j = none := by
      intro j hworking
      have hlinked := hinv.engaged.linked j handle
      have hnone := hdispatch j
      unfold WorkerManager.dispatchStep at hnone
      cases hphase' : s.dispatches j with
      | on worker' handle' evicted' =>
        rw [hphase'] at hlinked hnone
        by_cases hh : handle = handle'
        · subst hh
          exact Option.map_eq_none_iff.1 hnone
        · simp only [Linked, if_neg hh] at hlinked
          exact absurd hworking (not_working_of_early hlinked)
      | evict worker' handle' =>
        rw [hphase'] at hnone
        cases hnone
      | returned result =>
        rw [hphase'] at hlinked
        rcases hlinked with hearly | hreturned
        · exact absurd hworking (not_working_of_early hearly)
        · generalize (s.handles handle).dispatches j = phase at hworking hreturned
          cases phase with
          | returned message result => cases hworking
          | _ => cases hreturned
      | _ =>
        rw [hphase'] at hlinked
        exact absurd hworking (not_working_of_early hlinked)
    have hlinked := hinv.engaged.linked i handle
    rw [hphase] at hlinked
    simp only [Linked, if_true] at hlinked
    have hnot := not_working_of_quiet (i := i) hsound (hinv.gone hreturned hspawned)
      (hrun (htask .writer trivial)) (hrun (htask .reader trivial)) hreaper hinner
    rw [hlinked] at hnot
    cases hnot
  | _ =>
    have hnot := hpending i
    rw [hphase] at hnot
    cases hnot

/-- In orderly runs, once the shutdown has returned, no process that was spawned is left, none is spawned
any more, and every dispatch returns. -/
theorem shutdown_complete (h : Reach (workerManager n defined lineBytes capacity rs) Orderly s)
    (hreturned : s.shutdown = .returned) :
    (∀ handle worker, s.spawned handle = some worker → (s.handles handle).gone = true) ∧
    (∀ l t, managerStep defined lineBytes capacity rs s l = some t →
      t.shutdown = .returned ∧ t.spawned = s.spawned) ∧
    Settles (workerManager n defined lineBytes capacity rs) Orderly IsInner AllReturned s := by
  have hinv := ManagerInv.of_reach h
  refine ⟨fun handle worker => hinv.gone hreturned, fun l t => hinv.final hreturned, ?_⟩
  refine Settles.of_measure (managerLoad lineBytes)
    (I := fun s => ManagerInv s ∧ s.shutdown = .returned) ?_ ?_ ⟨hinv, hreturned⟩
  · rintro s l t ⟨hinv, hreturned⟩ hinner horderly hstep
    have hstep : managerStep defined lineBytes capacity rs s l = some t := hstep
    refine ⟨⟨hinv.step horderly hstep, (hinv.final hreturned hstep).1⟩, ?_⟩
    cases l with
    | dispatch i spawnFails =>
      have hflag : s.isShutdown = true := by
        rw [hinv.engaged.flag, hreturned]
        rfl
      exact dispatchStep_managerLoad hflag ((hinv.engaged.returned hreturned).2 i) hstep
    | worker handle step =>
      obtain ⟨worker, -, hstep⟩ := Option.bind_eq_some_iff.1 hstep
      exact workerTask_lower hinner hstep
    | _ => cases hinner
  · rintro s ⟨hinv, hreturned⟩ hquiet
    exact allReturned_of_quiet hinv hreturned hquiet

/-! ## Sample runs -/

/-- Every worker is defined, and a request is a line of ten bytes. -/
def sampleManager (n : Nat) : System (WorkerManager n) (ManagerStep n) :=
  workerManager n (fun _ => true) (fun _ => 9) 64 .id

/-- Labels that are orderly in whatever state. -/
def Plain (s : WorkerManager n) : ManagerStep n → Prop
  | .dispatch i _ =>
    match s.dispatches i with
    | .evict worker handle => s.workers.lookup worker = some handle → (s.handles handle).gone = true
    | .on _ handle _ => s.shut handle = false → (s.handles handle).reader ≠ .stopped
    | _ => True
  | .shutdown _ => s.shutdown = .collect → s.workers.entries = [] → ∀ i, pending (s.dispatches i) = false
  | _ => True

instance decidablePlain (s : WorkerManager n) : DecidablePred (Plain s)
  | .dispatch i _ =>
    match h : s.dispatches i with
    | .evict worker handle => decidable_of_iff
        (s.workers.lookup worker = some handle → (s.handles handle).gone = true) (by simp [Plain, h])
    | .on _ handle _ => decidable_of_iff
        (s.shut handle = false → (s.handles handle).reader ≠ .stopped) (by simp [Plain, h])
    | .idle | .check _ _ | .lookup _ _ _ | .reuse _ _ _ | .evictDead _ _ _ _ | .definition _ _
    | .lockSpawn _ _ | .spawn _ _ | .register _ _ | .returned _ => .isTrue (by simp [Plain, h])
  | .shutdown _ => inferInstanceAs (Decidable
      (s.shutdown = .collect → s.workers.entries = [] → ∀ i, pending (s.dispatches i) = false))
  | .call _ _ _ | .worker _ _ | .callShutdown => inferInstanceAs (Decidable True)

theorem orderly_of_plain (s : WorkerManager n) (l : ManagerStep n) (h : Plain s l) : Orderly s l := by
  cases l with
  | dispatch i spawnFails =>
    refine ⟨fun worker handle hphase => ?_, fun worker handle evicted hphase hshut => ?_⟩
    · simpa [Plain, hphase] using h
    · have hreader : (s.handles handle).reader ≠ .stopped := by
        simp only [Plain, hphase] at h
        exact h hshut
      exact ⟨fun _ _ hstopped => absurd hstopped hreader, fun _ _ hstopped => absurd hstopped hreader⟩
  | shutdown expired => exact h
  | _ => trivial

def build : WorkerMessage := .Run ⟨"app#build", "tsc", false⟩

def test : WorkerMessage := .Run ⟨"app#test", "tsc", false⟩

/-- The first dispatch spawns the process and waits for its response. -/
def spawned : List (ManagerStep 2) := .call 0 "tsc" build :: List.replicate 10 (.dispatch 0 false)

/-- The process is shut down, and another dispatch begins. -/
def closed : List (ManagerStep 2) :=
  .callShutdown :: List.replicate 7 (.shutdown true) ++ .worker 0 .exit ::
    List.replicate 4 (.worker 0 (.reaper false)) ++ .call 1 "tsc" test ::
    List.replicate 5 (.shutdown true)

theorem shutdown_complete_run : ∃ s, Reach (sampleManager 2) Orderly s ∧ s.shutdown = .returned ∧
    (s.dispatches 0 = .on "tsc" 0 false ∧ s.dispatches 1 = .check "tsc" test) ∧
    (∀ handle worker, s.spawned handle = some worker → (s.handles handle).gone = true) ∧
    (∀ l t, managerStep (fun _ => true) (fun _ => 9) 64 .id s l = some t →
      t.shutdown = .returned ∧ t.spawned = s.spawned) ∧
    Settles (sampleManager 2) Orderly IsInner AllReturned s := by
  have hrun : ((sampleManager 2).run Plain (.initial 2 64) (spawned ++ closed)).map
      (fun s => (s.shutdown, s.dispatches 0, s.dispatches 1)) =
        some (.returned, .on "tsc" 0 false, .check "tsc" test) := by
    decide
  obtain ⟨s, hs, heq⟩ := Option.map_eq_some_iff.1 hrun
  obtain ⟨hreturned, heq⟩ := Prod.mk.inj heq
  have hreach : Reach (sampleManager 2) Orderly s :=
    Reach.run_of_labels (.init rfl) (fun s l _ => orderly_of_plain s l) hs
  exact ⟨s, hreach, hreturned, Prod.mk.inj heq, shutdown_complete hreach hreturned⟩

/-- The shutdown has returned, and a process that was spawned is not gone. -/
def Leaks (s : WorkerManager 1) : Prop :=
  s.shutdown = .returned ∧ (s.spawned 0).isSome = true ∧ (s.handles 0).gone = false

theorem leaks_of_run {ls : List (ManagerStep 1)} {phase : ManagerPhase 1}
    (h : ((sampleManager 1).run (fun _ _ => True) (.initial 1 64) ls).map
      (fun s => ((s.shutdown, (s.spawned 0).isSome, (s.handles 0).gone), s.dispatches 0)) =
        some ((.returned, true, false), phase)) :
    ∃ s, Reachable (sampleManager 1) s ∧ Leaks s ∧ s.dispatches 0 = phase := by
  obtain ⟨s, hs, heq⟩ := Option.map_eq_some_iff.1 h
  obtain ⟨heq, hphase⟩ := Prod.mk.inj heq
  obtain ⟨hreturned, heq⟩ := Prod.mk.inj heq
  exact ⟨s, .run (.init rfl) hs, ⟨hreturned, Prod.mk.inj heq⟩, hphase⟩

/-- A dispatch passes the flag, and spawns its process after the shutdown has found the registry empty. One
evicts the handle of a process that has closed its stdout, and the shutdown does not find it. -/
theorem shutdown_leaks :
    (∃ s, Reachable (sampleManager 1) s ∧ Leaks s ∧ s.dispatches 0 = .register "tsc" build) ∧
    ∃ s, Reachable (sampleManager 1) s ∧ Leaks s ∧ s.dispatches 0 = .on "tsc" 0 true := by
  refine ⟨?_, ?_⟩
  · exact @leaks_of_run ([.call 0 "tsc" build, .dispatch 0 false, .callShutdown] ++
      List.replicate 2 (.shutdown false) ++ List.replicate 5 (.dispatch 0 false)) _ (by decide)
  · exact @leaks_of_run (.call 0 "tsc" build :: List.replicate 10 (.dispatch 0 false) ++
      .worker 0 .closeStdout :: List.replicate 2 (.worker 0 .reader) ++ List.replicate 2 (.dispatch 0 false) ++
      .callShutdown :: List.replicate 2 (.shutdown false)) _ (by decide)

end Luchta.Proof.Manager
