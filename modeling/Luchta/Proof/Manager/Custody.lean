import Luchta.Impl.WorkerManager
import Luchta.Proof.Manager.Handles

/-!
# Who has the processes of a manager

* `Custody`: a process that is not gone is registered, in the hands of the dispatch that spawned it, or
  on the list of those that are shut down.
* `Custody.dispatchStep`, `Custody.workerTask`, `Custody.shutdownStep`: it stays so, where a dispatch
  evicts no process that is not gone.
-/

namespace Luchta.Proof.Manager

open Luchta.Framework Luchta.Impl Luchta.Proof.Worker

variable {n : Nat}

/-- The dispatch has got a handle, or has returned. -/
def past : ManagerPhase n → Bool
  | .on _ _ _ | .evict _ _ | .returned _ => true
  | _ => false

def handleOf : ManagerPhase n → Option (Fin n)
  | .reuse _ _ handle | .evictDead _ _ _ handle | .on _ handle _ | .evict _ handle => some handle
  | _ => none

def holdsLock : ManagerPhase n → Prop
  | .lookup locked _ _ | .reuse locked _ _ | .evictDead locked _ _ _ => locked = true
  | .spawn _ _ | .register _ _ => True
  | _ => False

/-- Whoever is about to spawn a process has found no other registered under the name. -/
def Vacant (workers : HashMap String (Fin n)) : ManagerPhase n → Prop
  | .reuse true worker handle | .evictDead true worker _ handle =>
    ∀ h, workers.lookup worker = some h → h = handle
  | .spawn worker _ | .register worker _ => workers.lookup worker = none
  | _ => True

/-- The handles that are going to be shut down, with the one that is being shut down. -/
def tended : ShutdownPhase n → List (Fin n)
  | .next handles => handles
  | .close _ handle handles => handle :: handles
  | _ => []

/-- The reaper of the handle is awaited. -/
def isLate : ClosePhase → Bool
  | .crashJobs | .abortTasks => true
  | _ => false

structure Custody (s : WorkerManager n) : Prop where
  registered : ∀ w h, s.workers.lookup w = some h →
    s.spawned h = some w ∧ past (s.dispatches h) = true ∧ s.shut h = false ∧ h ∉ tended s.shutdown
  tending : ∀ h ∈ tended s.shutdown, past (s.dispatches h) = true
  shut : ∀ h, s.shut h = true → past (s.dispatches h) = true ∧
    ((s.handles h).gone = true ∨ ∃ phase hs, phase ≠ .swap ∧ s.shutdown = .close phase h hs)
  closing : ∀ phase h hs, s.shutdown = .close phase h hs → phase ≠ .swap →
    s.shut h = true ∧ (isLate phase = true → (s.handles h).gone = true)
  accounted : ∀ h w, s.spawned h = some w → (s.handles h).gone = true ∨ s.workers.lookup w = some h ∨
    (∃ m, s.dispatches h = .register w m) ∨ h ∈ tended s.shutdown
  registering : ∀ i w m, s.dispatches i = .register w m → s.spawned i = some w
  truthful : ∀ h, Truthful (s.handles h) (s.shut h)
  lock : Owns s.spawnLock fun i => holdsLock (s.dispatches i)
  vacant : ∀ i, Vacant s.workers (s.dispatches i)
  held : ∀ i h, handleOf (s.dispatches i) = some h → past (s.dispatches h) = true
  dead : ∀ i l w m h, s.dispatches i = .evictDead l w m h →
    (s.handles h).gone = true ∨ s.shut h = true

variable {s t : WorkerManager n} {i : Fin n} {phase : ManagerPhase n} {workers : HashMap String (Fin n)}

/-- After a step of its round trip, a dispatch goes on with it, evicts the handle or has returned. -/
theorem following_cases (worker : String) (handle : Fin n) (evicted : Bool) (before after : DispatchPhase) :
    WorkerManager.following worker handle evicted before after = .on worker handle evicted ∨
      WorkerManager.following worker handle evicted before after = .evict worker handle ∨
      ∃ result, WorkerManager.following worker handle evicted before after = .returned result := by
  unfold WorkerManager.following
  split
  · exact .inr (.inl rfl)
  · split
    · exact .inr (.inr ⟨_, rfl⟩)
    · exact .inr (.inl rfl)
  · exact .inr (.inr ⟨_, rfl⟩)
  · exact .inl rfl

theorem Vacant.anti {workers' : HashMap String (Fin n)} (h : Vacant workers phase)
    (hsub : ∀ w h, workers'.lookup w = some h → workers.lookup w = some h) : Vacant workers' phase := by
  have hnone : ∀ w, workers.lookup w = none → workers'.lookup w = none := by
    intro w hw
    refine Option.eq_none_iff_forall_ne_some.2 fun h hh => ?_
    rw [hsub w h hh] at hw
    cases hw
  cases phase with
  | reuse locked worker handle =>
    cases locked with
    | true => exact fun h' hh' => h h' (hsub _ _ hh')
    | false => trivial
  | evictDead locked worker message handle =>
    cases locked with
    | true => exact fun h' hh' => h h' (hsub _ _ hh')
    | false => trivial
  | spawn worker message => exact hnone worker h
  | register worker message => exact hnone worker h
  | _ => trivial

/-- Whoever wants to know that a name is vacant has the lock. -/
theorem vacant_of_not_holds (h : ¬ holdsLock phase) : Vacant workers phase := by
  cases phase with
  | reuse locked worker handle =>
    cases locked with
    | true => exact absurd rfl h
    | false => trivial
  | evictDead locked worker message handle =>
    cases locked with
    | true => exact absurd rfl h
    | false => trivial
  | spawn worker message => exact absurd trivial h
  | register worker message => exact absurd trivial h
  | _ => trivial

theorem gone_setHandle {handle : Fin n} {h' : WorkerHandle n} (hgone : h'.gone = true) :
    ((s.setHandle handle h').handles handle).gone = true := by
  show (Function.update s.handles handle h' handle).gone = true
  rw [Function.update_self, hgone]

/-! ## Steps -/

namespace Custody

/-- A dispatch goes on, and leaves the registry and the processes alone. -/
theorem move (h : Custody s) {handles : Fin n → WorkerHandle n} {lock : Option (Fin n)}
    (hflags : ∀ j, SameFlags (s.handles j) (handles j))
    (hpast : past (s.dispatches i) = true → past phase = true)
    (hbefore : ∀ w m, s.dispatches i ≠ .register w m) (hafter : ∀ w m, phase ≠ .register w m)
    (hlock : Owns.Crosses s.spawnLock i (holdsLock (s.dispatches i)) (holdsLock phase) lock)
    (hvacant : Vacant s.workers phase)
    (hheld : ∀ j, handleOf phase = some j → past (s.dispatches j) = true)
    (hdead : ∀ l w m j, phase = .evictDead l w m j → (s.handles j).gone = true ∨ s.shut j = true) :
    Custody { s with
      dispatches := Function.update s.dispatches i phase
      handles := handles
      spawnLock := lock } := by
  have hgone : ∀ j, (handles j).gone = (s.handles j).gone := fun j => (hflags j).1
  have hpast : ∀ j, past (s.dispatches j) = true →
      past (Function.update s.dispatches i phase j) = true := by
    intro j hj
    by_cases hji : j = i
    · subst hji
      rw [Function.update_self]
      exact hpast hj
    · rwa [Function.update_of_ne hji]
  refine ⟨fun w j hj => ?_, fun j hj => hpast j (h.tending j hj), fun j hj => ?_, fun p j hs hp hne => ?_,
    fun j w hj => ?_, fun j w m hj => ?_, fun j => (h.truthful j).congr (hflags j), h.lock.cross hlock,
    forall_update (Vacant s.workers) hvacant fun j _ => h.vacant j,
    ?_, fun j l w m k hj => ?_⟩
  · obtain ⟨hspawned, hp, hrest⟩ := h.registered w j hj
    exact ⟨hspawned, hpast j hp, hrest⟩
  · obtain ⟨hp, hrest⟩ := h.shut j hj
    rw [hgone]
    exact ⟨hpast j hp, hrest⟩
  · rw [hgone]
    exact h.closing p j hs hp hne
  · rw [hgone]
    refine (h.accounted j w hj).imp_right (Or.imp_right (Or.imp_left ?_))
    rintro ⟨m, hm⟩
    have hji : j ≠ i := by
      rintro rfl
      exact hbefore w m hm
    exact ⟨m, (Function.update_of_ne hji _ _).trans hm⟩
  · rcases of_update hj with ⟨-, hj⟩ | ⟨-, hj⟩
    · exact absurd hj (hafter w m)
    · exact h.registering j w m hj
  · exact forall_update (fun p => ∀ k, handleOf p = some k →
        past (Function.update s.dispatches i phase k) = true)
      (fun k hk => hpast k (hheld k hk)) fun j _ k hk => hpast k (h.held j k hk)
  · rw [hgone]
    rcases of_update hj with ⟨-, hj⟩ | ⟨-, hj⟩
    · exact hdead l w m k hj
    · exact h.dead j l w m k hj

theorem lookup_evictIfCurrent {worker : String} {handle : Fin n} {w : String} {h : Fin n}
    (hh : (s.evictIfCurrent worker handle).workers.lookup w = some h) : s.workers.lookup w = some h := by
  unfold WorkerManager.evictIfCurrent at hh
  dsimp only at hh
  split at hh
  · by_cases hw : w = worker
    · rw [hw, AList.lookup_erase] at hh
      cases hh
    · rwa [AList.lookup_erase_ne hw] at hh
  · exact hh

theorem lookup_evictIfCurrent_of_ne {worker : String} {handle : Fin n} {w : String} {h : Fin n}
    (hh : s.workers.lookup w = some h) (hne : h ≠ handle) :
    (s.evictIfCurrent worker handle).workers.lookup w = some h := by
  unfold WorkerManager.evictIfCurrent
  dsimp only
  split
  · rename_i hcurrent
    have hw : w ≠ worker := by
      rintro rfl
      exact hne (Option.some.inj (hh.symm.trans hcurrent))
    rwa [AList.lookup_erase_ne hw]
  · exact hh

theorem lookup_evictIfCurrent_self {worker : String} {handle : Fin n}
    (hh : ∀ h, s.workers.lookup worker = some h → h = handle) :
    (s.evictIfCurrent worker handle).workers.lookup worker = none := by
  unfold WorkerManager.evictIfCurrent
  dsimp only
  split
  · exact AList.lookup_erase _ _
  · rename_i hcurrent
    refine Option.eq_none_iff_forall_ne_some.2 fun h hlookup => hcurrent ?_
    rwa [hh h hlookup] at hlookup

/-- A handle is evicted whose process is gone. -/
theorem evict (h : Custody s) {worker : String} {handle : Fin n}
    (hgone : s.workers.lookup worker = some handle → (s.handles handle).gone = true) :
    Custody (s.evictIfCurrent worker handle) := by
  refine ⟨fun w j hj => h.registered w j (lookup_evictIfCurrent hj), h.tending, h.shut, h.closing,
    fun j w hj => ?_, h.registering, h.truthful, h.lock,
    fun j => (h.vacant j).anti fun w k hk => lookup_evictIfCurrent hk, h.held, h.dead⟩
  rcases h.accounted j w hj with hj' | hj' | hj'
  · exact .inl hj'
  · by_cases hjh : j = handle
    · subst hjh
      by_cases hcurrent : s.workers.lookup worker = some j
      · exact .inl (hgone hcurrent)
      · refine .inr (.inl ?_)
        unfold WorkerManager.evictIfCurrent
        rw [if_neg hcurrent]
        exact hj'
    · exact .inr (.inl (lookup_evictIfCurrent_of_ne hj' hjh))
  · exact .inr (.inr hj')

/-- The tasks of the handles go on. -/
theorem task (h : Custody s) {handles : Fin n → WorkerHandle n} {evicted : Fin n → Bool}
    (hgone : ∀ j, (s.handles j).gone = true → (handles j).gone = true)
    (htruthful : ∀ j, Truthful (handles j) (s.shut j)) :
    Custody { s with handles := handles, evicted := evicted } where
  registered := h.registered
  tending := h.tending
  shut j hj := (h.shut j hj).imp_right (Or.imp_left (hgone j))
  closing p j hs hp hne := (h.closing p j hs hp hne).imp_right fun hlate hl => hgone j (hlate hl)
  accounted j w hj := (h.accounted j w hj).imp_left (hgone j)
  registering := h.registering
  truthful := htruthful
  lock := h.lock
  vacant := h.vacant
  held := h.held
  dead j l w m k hj := (h.dead j l w m k hj).imp_left (hgone k)

theorem setHandle (h : Custody s) {handle : Fin n} {h' : WorkerHandle n}
    (hgone : (s.handles handle).gone = true → h'.gone = true)
    (htruthful : Truthful h' (s.shut handle)) : Custody (s.setHandle handle h') := by
  have htask : ∀ {handles : Fin n → WorkerHandle n},
      (∀ j, (s.handles j).gone = true → (handles j).gone = true) →
      (∀ j, Truthful (handles j) (s.shut j)) → Custody { s with handles := handles } := h.task
  refine htask (fun j hj => ?_) fun j => ?_
  · by_cases hjh : j = handle
    · subst hjh
      rw [Function.update_self]
      exact hgone hj
    · rwa [Function.update_of_ne hjh]
  · by_cases hjh : j = handle
    · subst hjh
      rwa [Function.update_self]
    · rw [Function.update_of_ne hjh]
      exact h.truthful j

/-- The process is spawned, and nobody knows its handle yet. -/
theorem spawn (h : Custody s) {worker : String} {message : WorkerMessage} {capacity : Nat}
    (hphase : s.dispatches i = .spawn worker message) :
    Custody { (s.setHandle i (.initial n capacity)).setDispatch i (.register worker message) with
      spawned := Function.update s.spawned i (some worker) } := by
  have hne : ∀ j, past (s.dispatches j) = true → j ≠ i := by
    rintro j hj rfl
    rw [hphase] at hj
    cases hj
  have hhandle : ∀ j, j ≠ i →
      Function.update s.handles i (WorkerHandle.initial n capacity) j = s.handles j :=
    fun j hj => Function.update_of_ne hj _ _
  have hdispatch : ∀ j, j ≠ i →
      Function.update s.dispatches i (.register worker message) j = s.dispatches j :=
    fun j hj => Function.update_of_ne hj _ _
  refine ⟨fun w j hj => ?_, fun j hj => ?_, fun j hj => ?_, fun p j hs hp hne' => ?_, fun j w hj => ?_,
    fun j w m hj => ?_, ?_, ?_, ?_, ?_, fun j l w m k hj => ?_⟩
  · obtain ⟨hspawned, hpast, hrest⟩ := h.registered w j hj
    refine ⟨(Function.update_of_ne (hne j hpast) _ _).trans hspawned, ?_, hrest⟩
    exact (congrArg past (hdispatch j (hne j hpast))).trans hpast
  · have hpast := h.tending j hj
    exact (congrArg past (hdispatch j (hne j hpast))).trans hpast
  · obtain ⟨hpast, hrest⟩ := h.shut j hj
    refine ⟨(congrArg past (hdispatch j (hne j hpast))).trans hpast, hrest.imp_left fun hgone => ?_⟩
    exact (congrArg WorkerHandle.gone (hhandle j (hne j hpast))).trans hgone
  · obtain ⟨hshut, hlate⟩ := h.closing p j hs hp hne'
    refine ⟨hshut, fun hl => ?_⟩
    exact (congrArg WorkerHandle.gone (hhandle j (hne j (h.shut j hshut).1))).trans (hlate hl)
  · rcases of_update hj with ⟨rfl, hw⟩ | ⟨hji, hj⟩
    · refine .inr (.inr (.inl ⟨message, ?_⟩))
      rw [← Option.some.inj hw]
      exact Function.update_self _ _ _
    · refine (h.accounted j w hj).imp (fun hgone => ?_) (Or.imp_right (Or.imp_left ?_))
      · exact (congrArg WorkerHandle.gone (hhandle j hji)).trans hgone
      · rintro ⟨m, hm⟩
        exact ⟨m, (hdispatch j hji).trans hm⟩
  · rcases of_update hj with ⟨rfl, hreg⟩ | ⟨hji, hj⟩
    · obtain ⟨rfl, rfl⟩ := ManagerPhase.register.inj hreg
      exact Function.update_self _ _ _
    · exact (Function.update_of_ne hji _ _).trans (h.registering j w m hj)
  · intro j
    by_cases hji : j = i
    · subst hji
      show Truthful (Function.update s.handles j _ j) _
      rw [Function.update_self]
      exact .initial capacity
    · show Truthful (Function.update s.handles i _ j) _
      rw [hhandle j hji]
      exact h.truthful j
  · exact h.lock.cross (.keep (by rw [hphase]; exact Iff.rfl))
  · refine forall_update (Vacant s.workers) ?_ fun j _ => h.vacant j
    have hvacant := h.vacant i
    rw [hphase] at hvacant
    exact hvacant
  · refine forall_update (fun p => ∀ k, handleOf p = some k →
      past (Function.update s.dispatches i (.register worker message) k) = true) ?_ fun j _ k hk => ?_
    · intro k hk
      cases hk
    · have hpast := h.held j k hk
      exact (congrArg past (hdispatch k (hne k hpast))).trans hpast
  · rcases of_update hj with ⟨-, hj⟩ | ⟨hji, hj⟩
    · cases hj
    · have hj : s.dispatches j = .evictDead l w m k := hj
      refine (h.dead j l w m k hj).imp_left fun hgone => ?_
      have hpast := h.held j k (by rw [hj]; rfl)
      exact (congrArg WorkerHandle.gone (hhandle k (hne k hpast))).trans hgone

/-- The handle is registered, by whoever has the lock. -/
theorem register (h : Custody s) {worker : String} {message : WorkerMessage}
    {handles : Fin n → WorkerHandle n} (hphase : s.dispatches i = .register worker message)
    (hflags : ∀ j, SameFlags (s.handles j) (handles j)) :
    Custody { s with
      workers := s.workers.insert worker i
      dispatches := Function.update s.dispatches i (.on worker i false)
      handles := handles
      spawnLock := none } := by
  have hgone : ∀ j, (handles j).gone = (s.handles j).gone := fun j => (hflags j).1
  have hvacant : s.workers.lookup worker = none := by
    have hvacant := h.vacant i
    rw [hphase] at hvacant
    exact hvacant
  have hnot : ¬ past (s.dispatches i) = true := by
    rw [hphase]
    exact Bool.false_ne_true
  have hpast : ∀ j, past (s.dispatches j) = true →
      past (Function.update s.dispatches i (.on worker i false) j) = true := by
    intro j hj
    by_cases hji : j = i
    · subst hji
      exact absurd hj hnot
    · rwa [Function.update_of_ne hji]
  refine ⟨fun w j hj => ?_, fun j hj => hpast j (h.tending j hj), fun j hj => ?_, fun p j hs hp hne => ?_,
    fun j w hj => ?_, fun j w m hj => ?_, fun j => (h.truthful j).congr (hflags j), ?_,
    fun j => ?_, ?_, fun j l w m k hj => ?_⟩
  · rw [HashMap.lookup_insert_if] at hj
    split at hj
    · rename_i hw
      subst hw
      obtain rfl := Option.some.inj hj
      refine ⟨h.registering i w message hphase, ?_, ?_, fun htended => hnot (h.tending i htended)⟩
      · exact (congrArg past (Function.update_self i _ _)).trans rfl
      · exact Bool.eq_false_of_not_eq_true fun hshut => hnot (h.shut i hshut).1
    · obtain ⟨hspawned, hp, hrest⟩ := h.registered w j hj
      exact ⟨hspawned, hpast j hp, hrest⟩
  · obtain ⟨hp, hrest⟩ := h.shut j hj
    rw [hgone]
    exact ⟨hpast j hp, hrest⟩
  · rw [hgone]
    exact h.closing p j hs hp hne
  · rw [hgone]
    dsimp only
    rw [HashMap.lookup_insert_if]
    rcases h.accounted j w hj with hj' | hj' | ⟨m, hm⟩ | hj'
    · exact .inl hj'
    · have hw : w ≠ worker := by
        rintro rfl
        rw [hvacant] at hj'
        cases hj'
      rw [if_neg hw]
      exact .inr (.inl hj')
    · by_cases hji : j = i
      · subst hji
        obtain ⟨rfl, -⟩ := ManagerPhase.register.inj (hphase.symm.trans hm)
        exact .inr (.inl (if_pos rfl))
      · exact .inr (.inr (.inl ⟨m, (Function.update_of_ne hji _ _).trans hm⟩))
    · exact .inr (.inr (.inr hj'))
  · rcases of_update hj with ⟨-, hj⟩ | ⟨-, hj⟩
    · cases hj
    · exact h.registering j w m hj
  · exact h.lock.cross (.release (by rw [hphase]; trivial) id)
  · -- nobody else has the lock
    by_cases hji : j = i
    · subst hji
      dsimp only
      rw [Function.update_self]
      trivial
    · dsimp only
      rw [Function.update_of_ne hji]
      exact vacant_of_not_holds fun hj => hji (h.lock.unique hj (by rw [hphase]; trivial))
  · refine forall_update (fun p => ∀ k, handleOf p = some k →
      past (Function.update s.dispatches i (.on worker i false) k) = true) ?_ fun j _ k hk =>
        hpast k (h.held j k hk)
    intro k hk
    obtain rfl := Option.some.inj hk
    exact (congrArg past (Function.update_self i _ _)).trans rfl
  · rw [hgone]
    rcases of_update hj with ⟨-, hj⟩ | ⟨-, hj⟩
    · cases hj
    · exact h.dead j l w m k hj

/-! ## Shutting down -/

/-- The shutdown goes on, with the handles that it has. -/
theorem shutdownTo (h : Custody s) {phase : ShutdownPhase n} {isShutdown : Bool}
    (htended : ∀ j, j ∈ tended phase ↔ j ∈ tended s.shutdown)
    (hshut : ∀ p j hs, p ≠ .swap → s.shutdown = .close p j hs →
      (s.handles j).gone = true ∨ ∃ p hs, p ≠ .swap ∧ phase = .close p j hs)
    (hclosing : ∀ p j hs, phase = .close p j hs → p ≠ .swap →
      s.shut j = true ∧ (isLate p = true → (s.handles j).gone = true)) :
    Custody { s with isShutdown := isShutdown, shutdown := phase } where
  registered w j hj := by
    obtain ⟨hspawned, hp, hnot, htend⟩ := h.registered w j hj
    exact ⟨hspawned, hp, hnot, fun hmem => htend ((htended j).1 hmem)⟩
  tending j hj := h.tending j ((htended j).1 hj)
  shut j hj := by
    obtain ⟨hp, hgone | ⟨p, hs, hne, hphase⟩⟩ := h.shut j hj
    · exact ⟨hp, .inl hgone⟩
    · exact ⟨hp, hshut p j hs hne hphase⟩
  closing := hclosing
  accounted j w hj := (h.accounted j w hj).imp_right (Or.imp_right (Or.imp_right (htended j).2))
  registering := h.registering
  truthful := h.truthful
  lock := h.lock
  vacant := h.vacant
  held := h.held
  dead := h.dead

/-- One that it has begun to close is gone, and it goes on to the others. -/
theorem leave (h : Custody s) {phase : ClosePhase} {handle : Fin n} {hs : List (Fin n)}
    (hphase : s.shutdown = .close phase handle hs) (hgone : (s.handles handle).gone = true) :
    Custody { s with shutdown := .next hs } where
  registered w j hj := by
    obtain ⟨hspawned, hp, hnot, htend⟩ := h.registered w j hj
    rw [hphase] at htend
    exact ⟨hspawned, hp, hnot, fun hmem => htend (List.mem_cons_of_mem _ hmem)⟩
  tending j hj := h.tending j (by rw [hphase]; exact List.mem_cons_of_mem _ hj)
  shut j hj := by
    refine (h.shut j hj).imp_right fun hor => .inl ?_
    rcases hor with hgone' | ⟨p, hs', -, hclose⟩
    · exact hgone'
    · obtain ⟨-, rfl, -⟩ := ShutdownPhase.close.inj (hphase.symm.trans hclose)
      exact hgone
  closing p j hs' hp := by cases hp
  accounted j w hj := by
    refine (h.accounted j w hj).elim .inl fun hor => ?_
    rcases hor with hor | hor | hmem
    · exact .inr (.inl hor)
    · exact .inr (.inr (.inl hor))
    · rw [hphase] at hmem
      rcases List.mem_cons.1 hmem with rfl | hmem
      · exact .inl hgone
      · exact .inr (.inr (.inr hmem))
  registering := h.registering
  truthful := h.truthful
  lock := h.lock
  vacant := h.vacant
  held := h.held
  dead := h.dead

/-- All handles are taken out of the registry. -/
theorem collect (h : Custody s) (rs : RandomState) (hphase : s.shutdown = .collect) :
    Custody { s with workers := ∅, shutdown := .next (rs.permute (s.workers.entries.map (·.2))) } := by
  have hmem : ∀ j, j ∈ rs.permute (s.workers.entries.map (·.2)) ↔
      ∃ w, s.workers.lookup w = some j := by
    intro j
    rw [rs.mem_permute, List.mem_map]
    constructor
    · rintro ⟨⟨w, j⟩, hmem, rfl⟩
      exact ⟨w, AList.mem_lookup_iff.2 hmem⟩
    · rintro ⟨w, hw⟩
      exact ⟨⟨w, j⟩, AList.mem_lookup_iff.1 hw, rfl⟩
  have hnone : ∀ w j, (∅ : HashMap String (Fin n)).lookup w ≠ some j := by
    intro w j hj
    rw [AList.lookup_empty] at hj
    cases hj
  refine ⟨fun w j hj => absurd hj (hnone w j), fun j hj => ?_, fun j hj => ?_, fun p j hs hp => (by cases hp),
    fun j w hj => ?_, h.registering, h.truthful, h.lock,
    fun j => (h.vacant j).anti fun w k hk => absurd hk (hnone w k), h.held, h.dead⟩
  · obtain ⟨w, hw⟩ := (hmem j).1 hj
    exact (h.registered w j hw).2.1
  · refine (h.shut j hj).imp_right fun hor => ?_
    rcases hor with hgone | ⟨p, hs, -, hclose⟩
    · exact .inl hgone
    · rw [hphase] at hclose
      cases hclose
  · rcases h.accounted j w hj with hgone | hw | hregister | htended
    · exact .inl hgone
    · exact .inr (.inr (.inr ((hmem j).2 ⟨w, hw⟩)))
    · exact .inr (.inr (.inl hregister))
    · rw [hphase] at htended
      cases htended

/-- A handle that is on the list is marked as shut down. -/
theorem mark (h : Custody s) {handle : Fin n} {hs : List (Fin n)}
    (hphase : s.shutdown = .close .swap handle hs) :
    Custody { s with
      shut := Function.update s.shut handle true
      shutdown := .close .takeWriter handle hs } := by
  have hmono : ∀ j, s.shut j = true → Function.update s.shut handle true j = true := by
    intro j hj
    by_cases hjh : j = handle
    · rw [hjh, Function.update_self]
    · rwa [Function.update_of_ne hjh]
  have hmem : handle ∈ tended s.shutdown := by
    rw [hphase]
    exact List.mem_cons_self
  refine ⟨fun w j hj => ?_, fun j hj => h.tending j (by rw [hphase]; exact hj), fun j hj => ?_,
    fun p j hs' hp _ => ?_, fun j w hj => ?_, h.registering, fun j => ?_, h.lock, h.vacant, h.held,
    fun j l w m k hj => (h.dead j l w m k hj).imp_right (hmono k)⟩
  · obtain ⟨hspawned, hp, hnot, htend⟩ := h.registered w j hj
    have hne : j ≠ handle := by
      rintro rfl
      exact htend hmem
    refine ⟨hspawned, hp, (Function.update_of_ne hne _ _).trans hnot, ?_⟩
    rw [hphase] at htend
    exact htend
  · rcases of_update hj with ⟨rfl, -⟩ | ⟨-, hj⟩
    · exact ⟨h.tending j hmem, .inr ⟨.takeWriter, hs, by simp, rfl⟩⟩
    · refine (h.shut j hj).imp_right fun hor => .inl ?_
      rcases hor with hgone | ⟨p, hs', hne, hclose⟩
      · exact hgone
      · obtain ⟨rfl, -⟩ := ShutdownPhase.close.inj (hphase.symm.trans hclose)
        exact absurd rfl hne
  · obtain ⟨rfl, rfl, -⟩ := ShutdownPhase.close.inj hp
    refine ⟨Function.update_self _ _ _, fun hlate => ?_⟩
    cases hlate
  · have haccounted := h.accounted j w hj
    rw [hphase] at haccounted
    exact haccounted
  · have htruthful := h.truthful j
    exact ⟨htruthful.exited, htruthful.reaper, fun hnone =>
      (htruthful.writerTx hnone).imp_right (hmono j)⟩

/-- The handle that is shut down is closed further. -/
theorem close (h : Custody s) {p p' : ClosePhase} {handle : Fin n} {hs : List (Fin n)}
    (hphase : s.shutdown = .close p handle hs) (hp : p ≠ .swap) (hp' : p' ≠ .swap)
    (hlate : isLate p' = true → (s.handles handle).gone = true) :
    Custody { s with shutdown := .close p' handle hs } := by
  refine h.shutdownTo (fun j => ?_) (fun q j hs' _ hclose => .inr ?_) fun q j hs' hclose _ => ?_
  · rw [hphase]
    exact Iff.rfl
  · obtain ⟨-, rfl, rfl⟩ := ShutdownPhase.close.inj (hphase.symm.trans hclose)
    exact ⟨p', hs, hp', rfl⟩
  · obtain ⟨rfl, rfl, -⟩ := ShutdownPhase.close.inj hclose
    exact ⟨(h.closing p handle hs hphase hp).1, hlate⟩

/-! ## The three kinds of steps -/

theorem flags_update {handles : Fin n → WorkerHandle n} {handle : Fin n} {h' : WorkerHandle n}
    (hsame : SameFlags (handles handle) h') (j : Fin n) :
    SameFlags (handles j) (Function.update handles handle h' j) := by
  by_cases hj : j = handle
  · subst hj
    rwa [Function.update_self]
  · rw [Function.update_of_ne hj]
    exact .refl _

theorem closeStep (h : Custody s) {expired : Bool} {phase : ClosePhase} {handle : Fin n}
    {hs : List (Fin n)} (hphase : s.shutdown = .close phase handle hs)
    (hstep : s.closeStep expired handle hs phase = some t) : Custody t := by
  -- only the handle that is closed changes, and not in what it says of its process
  have hsame : ∀ {h' : WorkerHandle n}, SameFlags (s.handles handle) h' →
      Custody (s.setHandle handle h') ∧ (s.setHandle handle h').shutdown = .close phase handle hs :=
    fun hflags => ⟨h.setHandle (fun hgone => hflags.1.trans hgone) ((h.truthful handle).congr hflags),
      hphase⟩
  cases phase with
  | swap =>
    obtain rfl := Option.some.inj hstep
    split
    · rename_i hshut
      refine h.leave hphase (((h.shut handle hshut).2).resolve_right ?_)
      rintro ⟨p, hs', hne, hclose⟩
      obtain ⟨rfl, -⟩ := ShutdownPhase.close.inj (hphase.symm.trans hclose)
      exact hne rfl
    · exact h.mark hphase
  | takeWriter =>
    obtain rfl := Option.some.inj hstep
    have hshut := (h.closing _ handle hs hphase (by simp)).1
    have htruthful : Truthful { s.handles handle with writerTx := false } (s.shut handle) :=
      ⟨(h.truthful handle).exited, (h.truthful handle).reaper, fun _ => .inr hshut⟩
    have htaken : Custody (s.setHandle handle { s.handles handle with writerTx := false }) :=
      h.setHandle id htruthful
    exact htaken.close hphase (by simp) (by simp) fun hlate => by cases hlate
  | waitExit =>
    unfold WorkerManager.closeStep at hstep
    dsimp only at hstep
    split at hstep
    · obtain rfl := Option.some.inj hstep
      exact h.close hphase (by simp) (by simp) fun hlate => by cases hlate
    · split at hstep
      · obtain rfl := Option.some.inj hstep
        exact h.close hphase (by simp) (by simp) fun hlate => by cases hlate
      · cases hstep
  | waitGrace =>
    obtain ⟨-, heq⟩ := Option.ite_none_right_eq_some.1 hstep
    obtain rfl := Option.some.inj heq
    exact h.close hphase (by simp) (by simp) fun hlate => by cases hlate
  | awaitReaper =>
    obtain ⟨hreaper, heq⟩ := Option.ite_none_right_eq_some.1 hstep
    obtain rfl := Option.some.inj heq
    refine h.close hphase (by simp) (by simp) fun _ => (h.truthful handle).reaper ?_
    rw [hreaper]
    simp
  | crashJobs =>
    obtain rfl := Option.some.inj hstep
    have hgone := (h.closing _ handle hs hphase (by simp)).2 rfl
    obtain ⟨hcrashed, hphase'⟩ := @hsame (s.handles handle).crashAllJobs ⟨rfl, rfl, rfl, rfl⟩
    refine hcrashed.close hphase' (by simp) (by simp) fun _ => ?_
    exact gone_setHandle hgone
  | abortTasks =>
    obtain rfl := Option.some.inj hstep
    have hgone := (h.closing _ handle hs hphase (by simp)).2 rfl
    obtain ⟨haborted, hphase'⟩ := @hsame { s.handles handle with reader := .stopped, writer := .ended }
      ⟨rfl, rfl, rfl, rfl⟩
    refine haborted.leave hphase' ?_
    exact gone_setHandle hgone

theorem shutdownStep (h : Custody s) {rs : RandomState} {expired : Bool}
    (hstep : s.shutdownStep rs expired = some t) : Custody t := by
  unfold WorkerManager.shutdownStep at hstep
  split at hstep
  case h_1 => cases hstep
  case h_2 => cases hstep
  case h_3 hphase =>
    obtain rfl := Option.some.inj hstep
    have hnext : ∀ {phase : ShutdownPhase n} {isShutdown : Bool}, tended phase = [] →
        (∀ p j hs, phase ≠ .close p j hs) →
        Custody { s with isShutdown := isShutdown, shutdown := phase } := by
      intro phase isShutdown hnil hclose
      refine h.shutdownTo (fun j => ?_) (fun p j hs _ hs' => ?_) fun p j hs hs' => absurd hs' (hclose p j hs)
      · rw [hnil, hphase]
        exact Iff.rfl
      · rw [hphase] at hs'
        cases hs'
    split
    · exact hnext rfl (by simp)
    · exact hnext rfl (by simp)
  case h_4 hphase =>
    obtain rfl := Option.some.inj hstep
    have hcollect := h.collect rs hphase
    split
    · rename_i hempty
      rw [List.isEmpty_iff.1 hempty] at hcollect
      refine hcollect.shutdownTo (fun j => Iff.rfl) (fun p j hs _ hs' => ?_) fun p j hs hs' => ?_
      · cases hs'
      · cases hs'
    · exact hcollect
  case h_5 hphase =>
    obtain rfl := Option.some.inj hstep
    refine h.shutdownTo (fun j => ?_) (fun p j hs _ hs' => ?_) fun p j hs hs' => ?_
    · rw [hphase]
      exact Iff.rfl
    · rw [hphase] at hs'
      cases hs'
    · cases hs'
  case h_6 handle hs hphase =>
    obtain rfl := Option.some.inj hstep
    refine h.shutdownTo (fun j => ?_) (fun p j hs _ hs' => ?_) fun p j hs hs' hne => ?_
    · rw [hphase]
      exact Iff.rfl
    · rw [hphase] at hs'
      cases hs'
    · obtain ⟨rfl, -⟩ := ShutdownPhase.close.inj hs'
      exact absurd rfl hne
  case h_7 phase handle hs hphase => exact h.closeStep hphase hstep

/-- The dispatch goes on without a lock, a handle or a process that it is to register. -/
theorem go (h : Custody s) {handles : Fin n → WorkerHandle n}
    (hflags : ∀ j, SameFlags (s.handles j) (handles j))
    (hpast : past (s.dispatches i) = true → past phase = true)
    (hbefore : ∀ w m, s.dispatches i ≠ .register w m) (hafter : ∀ w m, phase ≠ .register w m)
    (hlock : holdsLock phase ↔ holdsLock (s.dispatches i)) (hvacant : Vacant s.workers phase)
    (hheld : ∀ j, handleOf phase = some j → past (s.dispatches j) = true)
    (hdead : ∀ l w m j, phase ≠ .evictDead l w m j) :
    Custody { s with dispatches := Function.update s.dispatches i phase, handles := handles } :=
  h.move hflags hpast hbefore hafter (.keep hlock) hvacant hheld fun l w m j hj =>
    absurd hj (hdead l w m j)

/-- No live handle is found; whoever has the lock knows the name to be vacant. -/
theorem missing (h : Custody s) {locked : Bool} {worker : String} {message : WorkerMessage}
    (hpast : past (s.dispatches i) = false) (hbefore : ∀ w m, s.dispatches i ≠ .register w m)
    (hlock : holdsLock (s.dispatches i) ↔ locked = true)
    (hvacant : locked = true → s.workers.lookup worker = none) :
    Custody (s.setDispatch i (WorkerManager.missing locked worker message)) := by
  have hphase : past (s.dispatches i) = true →
      past (WorkerManager.missing locked worker message : ManagerPhase n) = true := by
    simp [hpast]
  cases locked with
  | true =>
    exact h.go (fun j => .refl _) hphase hbefore (by simp [WorkerManager.missing])
      (by rw [hlock]; simp [WorkerManager.missing, holdsLock]) (hvacant rfl)
      (by simp [WorkerManager.missing, handleOf]) (by simp [WorkerManager.missing])
  | false =>
    exact h.go (fun j => .refl _) hphase hbefore (by simp [WorkerManager.missing])
      (by rw [hlock]; simp [WorkerManager.missing, holdsLock]) trivial
      (by simp [WorkerManager.missing, handleOf]) (by simp [WorkerManager.missing])

theorem dispatchStep (h : Custody s) {defined : String → Bool} {capacity : Nat} {spawnFails : Bool}
    (hevict : ∀ w handle, s.dispatches i = .evict w handle → s.workers.lookup w = some handle →
      (s.handles handle).gone = true)
    (hstep : s.dispatchStep defined capacity i spawnFails = some t) : Custody t := by
  have hsame : ∀ j, SameFlags (s.handles j) (s.handles j) := fun j => .refl _
  unfold WorkerManager.dispatchStep at hstep
  split at hstep
  case h_1 => cases hstep
  case h_2 => cases hstep
  case h_3 worker message hphase =>
    obtain rfl := Option.some.inj hstep
    split
    · exact h.go hsame (by simp [past]) (by simp [hphase]) (by simp) (by simp [holdsLock, hphase]) trivial
        (by simp [handleOf]) (by simp)
    · exact h.go hsame (by simp [past, hphase]) (by simp [hphase]) (by simp) (by simp [holdsLock, hphase])
        trivial (by simp [handleOf]) (by simp)
  case h_4 locked worker message hphase =>
    split at hstep
    · rename_i handle hlookup
      obtain rfl := Option.some.inj hstep
      refine h.go (flags_update ⟨rfl, rfl, rfl, rfl⟩) (by simp [past, hphase]) (by simp [hphase]) (by simp)
        (by simp [holdsLock, hphase]) ?_ ?_ (by simp)
      · cases locked with
        | true => exact fun h' hh' => Option.some.inj (hh'.symm.trans hlookup)
        | false => trivial
      · intro j hj
        obtain rfl := Option.some.inj hj
        exact (h.registered worker handle hlookup).2.1
    · rename_i hlookup
      obtain rfl := Option.some.inj hstep
      exact h.missing (by simp [past, hphase]) (by simp [hphase]) (by simp [holdsLock, hphase]) fun _ => hlookup
  case h_5 locked worker handle hphase =>
    obtain ⟨h', hinner, rfl⟩ := Option.map_eq_some_iff.1 hstep
    have hflags := SameFlags.of_dispatchStep hinner
    have hvacant := h.vacant i
    have hhandle := h.held i handle (by rw [hphase]; rfl)
    have hheld : ∀ {phase : ManagerPhase n}, handleOf phase = some handle →
        ∀ j, handleOf phase = some j → past (s.dispatches j) = true := by
      intro phase heq j hj
      obtain rfl := Option.some.inj (heq.symm.trans hj)
      exact hhandle
    rw [hphase] at hvacant
    unfold WorkerManager.reused
    split
    · refine h.move (flags_update hflags) (by simp [past]) (by simp [hphase]) (by simp) ?_ trivial (hheld rfl)
        (by simp)
      cases locked with
      | true => exact .release (by simp [holdsLock, hphase]) (by simp [holdsLock])
      | false => exact .keep (by simp [holdsLock, hphase])
    · rename_i message helsewhere
      refine h.move (flags_update hflags) (by simp [past, hphase]) (by simp [hphase]) (by simp)
        (.keep (by simp [holdsLock, hphase])) ?_ (hheld rfl) fun l w m j hj => ?_
      · cases locked with
        | true => exact hvacant
        | false => trivial
      · obtain ⟨-, -, -, rfl⟩ := ManagerPhase.evictDead.inj hj
        exact (h.truthful handle).of_dead (dead_of_elsewhere hinner helsewhere)
    · exact h.setHandle (fun hgone => hflags.1.trans hgone) ((h.truthful handle).congr hflags)
  case h_6 locked worker message handle hphase =>
    obtain rfl := Option.some.inj hstep
    have hevicted : Custody (s.evictIfCurrent worker handle) := by
      refine h.evict fun hcurrent => (h.dead i locked worker message handle hphase).resolve_right ?_
      rw [(h.registered worker handle hcurrent).2.2.1]
      exact Bool.false_ne_true
    refine hevicted.missing (by simp [past, WorkerManager.evictIfCurrent, hphase])
      (by simp [WorkerManager.evictIfCurrent, hphase])
      (by simp [holdsLock, WorkerManager.evictIfCurrent, hphase]) fun hlocked => ?_
    subst hlocked
    have hvacant := h.vacant i
    rw [hphase] at hvacant
    exact lookup_evictIfCurrent_self hvacant
  case h_7 worker message hphase =>
    obtain rfl := Option.some.inj hstep
    split
    · exact h.go hsame (by simp [past, hphase]) (by simp [hphase]) (by simp) (by simp [holdsLock, hphase])
        trivial (by simp [handleOf]) (by simp)
    · exact h.go hsame (by simp [past]) (by simp [hphase]) (by simp) (by simp [holdsLock, hphase]) trivial
        (by simp [handleOf]) (by simp)
  case h_8 worker message hphase =>
    obtain ⟨hfree, heq⟩ := Option.ite_none_right_eq_some.1 hstep
    obtain rfl := Option.some.inj heq
    exact h.move hsame (by simp [past, hphase]) (by simp [hphase]) (by simp)
      (.acquire hfree (by simp [holdsLock])) trivial (by simp [handleOf]) (by simp)
  case h_9 worker message hphase =>
    split at hstep
    · obtain rfl := Option.some.inj hstep
      exact h.move hsame (by simp [past]) (by simp [hphase]) (by simp)
        (.release (by simp [holdsLock, hphase]) (by simp [holdsLock])) trivial (by simp [handleOf]) (by simp)
    · obtain rfl := Option.some.inj hstep
      exact h.spawn hphase
  case h_10 worker message hphase =>
    obtain rfl := Option.some.inj hstep
    exact h.register hphase (flags_update ⟨rfl, rfl, rfl, rfl⟩)
  case h_11 worker handle evicted hphase =>
    obtain ⟨h', hinner, rfl⟩ := Option.map_eq_some_iff.1 hstep
    have hhandle := h.held i handle (by rw [hphase]; rfl)
    have hflags := flags_update (SameFlags.of_dispatchStep hinner)
    rcases following_cases worker handle evicted ((s.handles handle).dispatches i) (h'.dispatches i) with
      heq | heq | ⟨result, heq⟩
    all_goals
      rw [heq]
      exact h.go hflags (by simp [past]) (by simp [hphase]) (by simp) (by simp [holdsLock, hphase]) trivial
        (by simp [handleOf, hhandle]) (by simp)
  case h_12 worker handle hphase =>
    obtain rfl := Option.some.inj hstep
    have hevicted := h.evict (hevict worker handle hphase)
    have hhandle := h.held i handle (by rw [hphase]; rfl)
    split
    · exact hevicted.go hsame (by simp [past]) (by simp [WorkerManager.evictIfCurrent, hphase]) (by simp)
        (by simp [holdsLock, WorkerManager.evictIfCurrent, hphase]) trivial (by simp [handleOf]) (by simp)
    · refine hevicted.go hsame (by simp [past]) (by simp [WorkerManager.evictIfCurrent, hphase]) (by simp)
        (by simp [holdsLock, WorkerManager.evictIfCurrent, hphase]) trivial (fun j hj => ?_) (by simp)
      obtain rfl := Option.some.inj hj
      exact hhandle

theorem runTask (h : Custody s) {lineBytes : WorkerMessage → Nat} {capacity : Nat} {handle : Fin n}
    {l : WorkerStep n} (hstep : s.runTask lineBytes capacity handle l = some t) : Custody t := by
  obtain ⟨h', hinner, rfl⟩ := Option.map_eq_some_iff.1 hstep
  obtain ⟨hgone, htruthful⟩ := (h.truthful handle).workerStep hinner
  split
  · exact h.setHandle hgone ⟨htruthful.exited, htruthful.reaper, htruthful.writerTx⟩
  · exact h.setHandle hgone htruthful

theorem workerTask (h : Custody s) {lineBytes : WorkerMessage → Nat} {capacity : Nat} {handle : Fin n}
    {worker : String} {l : WorkerStep n}
    (hstep : s.workerTask lineBytes capacity handle worker l = some t) : Custody t := by
  cases l with
  | call i message | spawn i message | dispatch i => cases hstep
  | exit =>
    obtain rfl := Option.some.inj hstep
    exact h.setHandle (fun _ => rfl) ⟨fun _ => rfl, fun _ => rfl, fun _ => .inl rfl⟩
  | reaper contended =>
    unfold WorkerManager.workerTask at hstep
    dsimp only at hstep
    split at hstep
    · rename_i hcrash
      obtain rfl := Option.some.inj hstep
      have hevicted : Custody (s.evictIfCurrent worker handle) :=
        h.evict fun _ => (h.truthful handle).reaper (by simp [hcrash.1])
      exact hevicted.task (fun _ hgone => hgone) h.truthful
    · exact h.runTask hstep
  | _ => exact h.runTask hstep

end Custody

end Luchta.Proof.Manager
