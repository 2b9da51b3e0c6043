import Luchta.Framework.Mutex
import Luchta.Framework.System

/-!
# The remote push queue

Producers put jobs into a channel; a pool of workers takes them out and runs them (`remote.rs`). A
step is one access to what the threads share: a lock, an atomic, the channel. The receiving half of
the channel belongs to the runtime that every producer holds, so a send does not fail. A closed
queue drops the sending half; receiving then ends once the channel is empty. Waiting on the
condition variable releases the progress lock and sleeps in one step, and takes the lock again when
woken. A notification that nobody waits for is lost; a sleeper may wake without one.

* `PushQueue`: what the threads share and where each of them is.
* `producerStep`: `enqueue_push`; `workerStep`: `run_push_worker` with `wait_for_previous_jobs`.
* `markJobComplete`: `mark_job_complete`.
* `pushQueue`: any interleaving of the threads, of closing (`close_push_queue`) and of cancelling
  (`cancel_timed_out_pushes`, `discard_push_queue`).

Left out: what the jobs do, the counters and warnings, and the deadlines, which do nothing here but
cancel.
-/

namespace Luchta.Impl

open Luchta.Framework

inductive PushMsg
  | EntryArtifacts
  | CacheFileBlob
  | IndexMerge
  | Flush
  deriving DecidableEq

def PushMsg.mayRunConcurrently : PushMsg → Bool
  | .EntryArtifacts | .CacheFileBlob => true
  | _ => false

structure PushJob where
  id : Nat
  message : PushMsg
  deriving DecidableEq

structure PushProgress where
  completedThrough : Nat
  completedOutOfOrder : Finset Nat

/-- Where a producer is in `enqueue_push`. From `sender` on it holds the sender's lock. -/
inductive ProducerPhase
  | idle
  | checkCancelled (message : PushMsg)
  | lock (message : PushMsg)
  | sender (message : PushMsg)
  | loadDepth (message : PushMsg)
  | takeId (message : PushMsg)
  | addDepth (job : PushJob)
  | send (job : PushJob)
  deriving DecidableEq

/-- Where a worker is in `run_push_worker`. -/
inductive WorkerPhase
  | lockReceiver
  /-- It holds the receiver's lock. -/
  | recv
  | subDepth (job : PushJob)
  | checkCancelled (job : PushJob)
  | lockProgress (job : PushJob)
  /-- It holds the progress lock from here to `leave`, except while it sleeps. -/
  | loopThrough (job : PushJob)
  | loopCancelled (job : PushJob)
  | wait (job : PushJob)
  | sleep (job : PushJob)
  | woken (job : PushJob)
  | leave (job : PushJob)
  | run (job : PushJob)
  | complete (job : PushJob)
  | ended
  deriving DecidableEq

structure PushQueue (m n : Nat) where
  /-- The lock of `tx`, and whether it still has the sender. -/
  tx : Option (Fin m)
  sender : Bool
  channel : List PushJob
  /-- The lock of `receiver`. -/
  receiver : Option (Fin n)
  capacity : Nat
  depth : Nat
  nextJobId : Nat
  /-- The lock of `progress`. -/
  progressLock : Option (Fin n)
  progress : PushProgress
  cancelled : Bool
  producers : Fin m → ProducerPhase
  workers : Fin n → WorkerPhase
  /-- The jobs that were sent, in the order in which they were. -/
  accepted : List PushJob
  /-- The jobs that were run to their end, in the order in which they ended. -/
  executed : List PushJob

namespace PushProgress

/-- The loop of `mark_job_complete`. -/
def advance : Nat → PushProgress → PushProgress
  | 0, p => p
  | fuel + 1, p =>
    if p.completedThrough + 1 ∈ p.completedOutOfOrder then
      advance fuel ⟨p.completedThrough + 1, p.completedOutOfOrder.erase (p.completedThrough + 1)⟩
    else p

def insert (p : PushProgress) (id : Nat) : PushProgress :=
  { p with completedOutOfOrder := Insert.insert id p.completedOutOfOrder }

def markJobComplete (p : PushProgress) (id : Nat) : PushProgress :=
  advance (p.insert id).completedOutOfOrder.card (p.insert id)

end PushProgress

/-- What a notification does to a worker. -/
def WorkerPhase.wake : WorkerPhase → WorkerPhase
  | .sleep job => .woken job
  | phase => phase

namespace PushQueue

variable {m n : Nat} (s : PushQueue m n)

def setProducer (p : Fin m) (phase : ProducerPhase) : PushQueue m n :=
  { s with producers := Function.update s.producers p phase }

def setWorker (w : Fin n) (phase : WorkerPhase) : PushQueue m n :=
  { s with workers := Function.update s.workers w phase }

/-- `progress_ready.notify_all()`. -/
def notifyAll : PushQueue m n := { s with workers := fun w => (s.workers w).wake }

/-- Runs under the progress lock from its first line to its last. -/
def markJobComplete (id : Nat) : PushQueue m n :=
  ({ s with progress := s.progress.markJobComplete id } : PushQueue m n).notifyAll

def enqueuePush (p : Fin m) (message : PushMsg) : Option (PushQueue m n) :=
  match s.producers p with
  | .idle => some (s.setProducer p (.checkCancelled message))
  | _ => none

def producerStep (p : Fin m) : Option (PushQueue m n) :=
  match s.producers p with
  | .idle => none
  | .checkCancelled message =>
    some (s.setProducer p (if s.cancelled then .idle else .lock message))
  | .lock message =>
    if s.tx = none then some { s.setProducer p (.sender message) with tx := some p } else none
  | .sender message =>
    if s.sender then some (s.setProducer p (.loadDepth message))
    else some { s.setProducer p .idle with tx := none }
  | .loadDepth message =>
    if s.capacity ≤ s.depth then some { s.setProducer p .idle with tx := none }
    else some (s.setProducer p (.takeId message))
  | .takeId message =>
    some { s.setProducer p (.addDepth ⟨s.nextJobId + 1, message⟩) with
      nextJobId := s.nextJobId + 1 }
  | .addDepth job => some { s.setProducer p (.send job) with depth := s.depth + 1 }
  | .send job =>
    some { s.setProducer p .idle with
      tx := none
      channel := s.channel ++ [job]
      accepted := s.accepted ++ [job] }

def workerStep (w : Fin n) : Option (PushQueue m n) :=
  match s.workers w with
  | .lockReceiver =>
    if s.receiver = none then some { s.setWorker w .recv with receiver := some w } else none
  | .recv =>
    match s.channel with
    | job :: channel =>
      some { s.setWorker w (.subDepth job) with receiver := none, channel := channel }
    | [] => if s.sender then none else some { s.setWorker w .ended with receiver := none }
  | .subDepth job => some { s.setWorker w (.checkCancelled job) with depth := s.depth - 1 }
  | .checkCancelled job =>
    some (s.setWorker w
      (if s.cancelled then .complete job
      else if job.message.mayRunConcurrently then .run job
      else .lockProgress job))
  | .lockProgress job | .woken job =>
    if s.progressLock = none then
      some { s.setWorker w (.loopThrough job) with progressLock := some w }
    else none
  | .loopThrough job =>
    some (s.setWorker w
      (if s.progress.completedThrough < job.id - 1 then .loopCancelled job else .leave job))
  | .loopCancelled job => some (s.setWorker w (if s.cancelled then .leave job else .wait job))
  | .wait job => some { s.setWorker w (.sleep job) with progressLock := none }
  | .sleep _ => none
  | .leave job =>
    some { s.setWorker w (if s.cancelled then .complete job else .run job) with
      progressLock := none }
  | .run job => some { s.setWorker w (.complete job) with executed := s.executed ++ [job] }
  | .complete job =>
    if s.progressLock = none then some ((s.markJobComplete job.id).setWorker w .lockReceiver)
    else none
  | .ended => none

/-- Takes the sender out under its lock. -/
def close : Option (PushQueue m n) := if s.tx = none then some { s with sender := false } else none

/-- A sleeper wakes without a notification. -/
def wake (w : Fin n) : PushQueue m n := s.setWorker w (s.workers w).wake

end PushQueue

inductive PushStep (m n : Nat)
  | enqueue (p : Fin m) (message : PushMsg)
  | producer (p : Fin m)
  | worker (w : Fin n)
  | close
  | cancel
  | notifyAll
  | wake (w : Fin n)
  deriving DecidableEq

def PushQueue.initial (m n capacity : Nat) : PushQueue m n where
  tx := none
  sender := true
  channel := []
  receiver := none
  capacity := capacity
  depth := 0
  nextJobId := 0
  progressLock := none
  progress := ⟨0, ∅⟩
  cancelled := false
  producers := fun _ => .idle
  workers := fun _ => .lockReceiver
  accepted := []
  executed := []

def pushQueue (m n capacity : Nat) : System (PushQueue m n) (PushStep m n) where
  init s := s = PushQueue.initial m n capacity
  step s
    | .enqueue p message => s.enqueuePush p message
    | .producer p => s.producerStep p
    | .worker w => s.workerStep w
    | .close => s.close
    | .cancel => some { s with cancelled := true }
    | .notifyAll => some s.notifyAll
    | .wake w => some (s.wake w)

end Luchta.Impl
