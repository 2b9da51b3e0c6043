import Luchta.Impl.WorkerHandle

/-!
# The workers of a manager

What `manager.rs` does around the handles of its workers. A dispatch that finds no shutdown under way
takes the handle that is registered under the worker's name, or spawns a process under a lock and
registers its handle; with the handle it makes a round trip. Shutting down raises a flag and then takes
the handles out of the registry, and shuts them down, until it finds the registry empty.

* `dispatchStep`: `dispatch_message` with `get_or_spawn`, and what `round_trip` does after a crash.
* `shutdownStep`: `shutdown_all`, with `closeStep` for the `shutdown` of a handle.
* `workerManager`: any interleaving of dispatches, of one shutdown and of what the processes do.

A handle bears the number of the dispatch that spawned it. A process that is gone has closed its pipes.
Left out: dropping the manager, retrying, and the signals, which the process may follow or not.
-/

namespace Luchta.Impl

open Luchta.Framework

inductive ManagerPhase (n : Nat)
  | idle
  | check (worker : String) (message : WorkerMessage)
  /-- `locked` where it has the lock for spawning. -/
  | lookup (locked : Bool) (worker : String) (message : WorkerMessage)
  /-- It asks the handle whether it is alive. -/
  | reuse (locked : Bool) (worker : String) (handle : Fin n)
  | evictDead (locked : Bool) (worker : String) (message : WorkerMessage) (handle : Fin n)
  | definition (worker : String) (message : WorkerMessage)
  | lockSpawn (worker : String) (message : WorkerMessage)
  | spawn (worker : String) (message : WorkerMessage)
  | register (worker : String) (message : WorkerMessage)
  /-- It makes its round trip; `evicted` where it has found the handle crashed. -/
  | on (worker : String) (handle : Fin n) (evicted : Bool)
  | evict (worker : String) (handle : Fin n)
  | returned (result : Except WorkerError WorkerResponse)
  deriving DecidableEq

inductive ClosePhase
  | swap
  | takeWriter
  | waitExit
  | waitGrace
  | awaitReaper
  | crashJobs
  | abortTasks
  deriving DecidableEq

inductive ShutdownPhase (n : Nat)
  | idle
  | swap
  | collect
  | next (handles : List (Fin n))
  | close (phase : ClosePhase) (handle : Fin n) (handles : List (Fin n))
  | returned
  deriving DecidableEq

structure WorkerManager (n : Nat) where
  isShutdown : Bool
  workers : HashMap String (Fin n)
  spawnLock : Option (Fin n)
  /-- The name of the worker that a process was spawned for. -/
  spawned : Fin n → Option String
  handles : Fin n → WorkerHandle n
  /-- `is_shutdown` of the handle. -/
  shut : Fin n → Bool
  /-- The reaper has evicted the handle. -/
  evicted : Fin n → Bool
  dispatches : Fin n → ManagerPhase n
  shutdown : ShutdownPhase n

namespace WorkerManager

variable {n : Nat}

def initial (n capacity : Nat) : WorkerManager n where
  isShutdown := false
  workers := ∅
  spawnLock := none
  spawned := fun _ => none
  handles := fun _ => .initial n capacity
  shut := fun _ => false
  evicted := fun _ => false
  dispatches := fun _ => .idle
  shutdown := .idle

variable (s : WorkerManager n)

def setDispatch (i : Fin n) (phase : ManagerPhase n) : WorkerManager n :=
  { s with dispatches := Function.update s.dispatches i phase }

def setHandle (handle : Fin n) (h : WorkerHandle n) : WorkerManager n :=
  { s with handles := Function.update s.handles handle h }

/-- The lock for spawning is given back by whoever has it. -/
def unlock (locked : Bool) : WorkerManager n :=
  { s with spawnLock := if locked then none else s.spawnLock }

/-- `evict_if_current`. -/
def evictIfCurrent (worker : String) (handle : Fin n) : WorkerManager n :=
  { s with workers := if s.workers.lookup worker = some handle then s.workers.erase worker else s.workers }

/-- No live handle is registered. -/
def missing (locked : Bool) (worker : String) (message : WorkerMessage) : ManagerPhase n :=
  if locked then .spawn worker message else .definition worker message

/-- What follows from a step of `is_alive`. -/
def reused (i : Fin n) (locked : Bool) (worker : String) (handle : Fin n) :
    DispatchPhase → WorkerManager n
  | .insert _ => (s.unlock locked).setDispatch i (.on worker handle false)
  | .elsewhere message => s.setDispatch i (.evictDead locked worker message handle)
  | _ => s

/-- What follows from a step of the round trip: a crash evicts the handle, before the job is removed
where the responses end, and after that where the writer is gone. -/
def following (worker : String) (handle : Fin n) (evicted : Bool) :
    DispatchPhase → DispatchPhase → ManagerPhase n
  | .await _, .remove _ (.error (.Crashed _)) => .evict worker handle
  | _, .returned _ (.error (.Crashed id)) =>
    if evicted then .returned (.error (.Crashed id)) else .evict worker handle
  | _, .returned _ result => .returned result
  | _, _ => .on worker handle evicted

/-- The next step of a dispatch; `spawnFails` where the process cannot be spawned. -/
def dispatchStep (defined : String → Bool) (capacity : Nat) (i : Fin n) (spawnFails : Bool) :
    Option (WorkerManager n) :=
  match s.dispatches i with
  | .idle | .returned _ => none
  | .check worker message =>
    some (s.setDispatch i
      (if s.isShutdown then .returned (.error (.Crashed message.id)) else .lookup false worker message))
  | .lookup locked worker message =>
    match s.workers.lookup worker with
    | some handle =>
      some ((s.setHandle handle ((s.handles handle).setDispatch i (.checkExited message))).setDispatch i
        (.reuse locked worker handle))
    | none => some (s.setDispatch i (missing locked worker message))
  | .reuse locked worker handle =>
    ((s.handles handle).dispatchStep i).map fun h =>
      (s.setHandle handle h).reused i locked worker handle (h.dispatches i)
  | .evictDead locked worker message handle =>
    some ((s.evictIfCurrent worker handle).setDispatch i (missing locked worker message))
  | .definition worker message =>
    some (s.setDispatch i
      (if defined worker then .lockSpawn worker message else .returned (.error (.Undefined worker))))
  | .lockSpawn worker message =>
    if s.spawnLock = none then
      some { s.setDispatch i (.lookup true worker message) with spawnLock := some i }
    else none
  | .spawn worker message =>
    if spawnFails then some ((s.unlock true).setDispatch i (.returned (.error (.Spawn worker))))
    else
      some { (s.setHandle i (.initial n capacity)).setDispatch i (.register worker message) with
        spawned := Function.update s.spawned i (some worker) }
  | .register worker message =>
    some { ((s.setHandle i ((s.handles i).setDispatch i (.insert message))).unlock true).setDispatch i
        (.on worker i false) with
      workers := s.workers.insert worker i }
  | .on worker handle evicted =>
    ((s.handles handle).dispatchStep i).map fun h =>
      (s.setHandle handle h).setDispatch i
        (following worker handle evicted ((s.handles handle).dispatches i) (h.dispatches i))
  | .evict worker handle =>
    some ((s.evictIfCurrent worker handle).setDispatch i
      (match (s.handles handle).dispatches i with
      | .returned _ result => .returned result
      | _ => .on worker handle true))

/-- A step of the tasks of a handle, which leave the jobs to whoever shuts the handle down. -/
def runTask (lineBytes : WorkerMessage → Nat) (capacity : Nat) (handle : Fin n) (step : WorkerStep n) :
    Option (WorkerManager n) :=
  (workerStep lineBytes capacity (s.handles handle) step).map fun h =>
    s.setHandle handle (if s.shut handle then { h with jobs := (s.handles handle).jobs } else h)

/-- A step of the tasks of a handle or of its process. -/
def workerTask (lineBytes : WorkerMessage → Nat) (capacity : Nat) (handle : Fin n) (worker : String) :
    WorkerStep n → Option (WorkerManager n)
  | .call _ _ | .spawn _ _ | .dispatch _ => none
  | .exit => some (s.setHandle handle
      { s.handles handle with gone := true, stdinClosed := true, stdoutClosed := true })
  | .reaper contended =>
    if (s.handles handle).reaper = .crash ∧ s.evicted handle = false then
      some { s.evictIfCurrent worker handle with evicted := Function.update s.evicted handle true }
    else s.runTask lineBytes capacity handle (.reaper contended)
  | step => s.runTask lineBytes capacity handle step

/-- The `shutdown` of a handle; `expired` where the time to exit is up. -/
def closeStep (expired : Bool) (handle : Fin n) (handles : List (Fin n)) :
    ClosePhase → Option (WorkerManager n)
  | .swap =>
    some (if s.shut handle then { s with shutdown := .next handles }
      else { s with
        shut := Function.update s.shut handle true
        shutdown := .close .takeWriter handle handles })
  | .takeWriter =>
    some { s.setHandle handle { s.handles handle with writerTx := false } with
      shutdown := .close .waitExit handle handles }
  | .waitExit =>
    if (s.handles handle).exited then some { s with shutdown := .close .awaitReaper handle handles }
    else if expired then some { s with shutdown := .close .waitGrace handle handles }
    else none
  | .waitGrace =>
    if (s.handles handle).exited || expired then
      some { s with shutdown := .close .awaitReaper handle handles }
    else none
  | .awaitReaper =>
    if (s.handles handle).reaper = .ended then
      some { s with shutdown := .close .crashJobs handle handles }
    else none
  | .crashJobs =>
    some { s.setHandle handle (s.handles handle).crashAllJobs with
      shutdown := .close .abortTasks handle handles }
  | .abortTasks =>
    some { s.setHandle handle { s.handles handle with reader := .stopped, writer := .ended } with
      shutdown := .next handles }

/-- The next step of `shutdown_all`. -/
def shutdownStep (rs : RandomState) (expired : Bool) : Option (WorkerManager n) :=
  match s.shutdown with
  | .idle | .returned => none
  | .swap =>
    some (if s.isShutdown then { s with shutdown := .returned }
      else { s with isShutdown := true, shutdown := .collect })
  | .collect =>
    let handles := rs.permute (s.workers.entries.map (·.2))
    some { s with workers := ∅, shutdown := if handles.isEmpty then .returned else .next handles }
  | .next [] => some { s with shutdown := .collect }
  | .next (handle :: handles) => some { s with shutdown := .close .swap handle handles }
  | .close phase handle handles => s.closeStep expired handle handles phase

end WorkerManager

inductive ManagerStep (n : Nat)
  | call (i : Fin n) (worker : String) (message : WorkerMessage)
  | dispatch (i : Fin n) (spawnFails : Bool)
  | worker (handle : Fin n) (step : WorkerStep n)
  | callShutdown
  | shutdown (expired : Bool)
  deriving DecidableEq

def managerStep {n : Nat} (defined : String → Bool) (lineBytes : WorkerMessage → Nat) (capacity : Nat)
    (rs : RandomState) (s : WorkerManager n) : ManagerStep n → Option (WorkerManager n)
  | .call i worker message =>
    match s.dispatches i with
    | .idle => some (s.setDispatch i (.check worker message))
    | _ => none
  | .dispatch i spawnFails => s.dispatchStep defined capacity i spawnFails
  | .worker handle step =>
    (s.spawned handle).bind fun worker => s.workerTask lineBytes capacity handle worker step
  | .callShutdown =>
    match s.shutdown with
    | .idle => some { s with shutdown := .swap }
    | _ => none
  | .shutdown expired => s.shutdownStep rs expired

/-- A manager, `n` dispatches and one shutdown. Which workers are defined does not change. -/
def workerManager (n : Nat) (defined : String → Bool) (lineBytes : WorkerMessage → Nat) (capacity : Nat)
    (rs : RandomState) : System (WorkerManager n) (ManagerStep n) where
  init := (· = .initial n capacity)
  step := managerStep defined lineBytes capacity rs

end Luchta.Impl
