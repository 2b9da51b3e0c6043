import Luchta.Framework.HashMap
import Luchta.Framework.System
import Luchta.Impl.WorkerProtocol
import Mathlib.Logic.Function.Basic

/-!
# The handle of a resident worker

The engine's side of one worker process (`manager.rs`, `io_tasks.rs`). A round trip finds the handle
alive, or has just spawned the process; it registers its job in the job map, hands its message to the
writer task through a bounded channel and takes what the reader task puts into the job's own channel. Reader, writer and reaper each clear the
job map when they come to an end. A step is one access to what is shared: the map, a channel, a flag,
the pipe.

* `dispatchStep`: `dispatch_message` and `round_trip`.
* `readerStep`, `writerStep`, `reaperStep`: the tasks of the process.
* `workerHandle`: any interleaving of them and of what the process does.

Left out: shutting down, retrying, spawning another process for a handle that is not alive, a message
that cannot be serialized, and crash details.
-/

namespace Luchta.Impl

open Luchta.Framework

inductive WorkerError
  | Undefined (worker : String)
  | Spawn (worker : String)
  | Crashed (id : String)
  | Protocol (id : String)
  deriving DecidableEq

/-- What the line codec yields, and what it turns out to be. -/
inductive WorkerLine
  | response (response : WorkerResponse)
  | unparsable
  | unreadable
  deriving DecidableEq

inductive DispatchPhase
  | idle
  | checkExited (message : WorkerMessage)
  | checkWriter (message : WorkerMessage)
  /-- The handle is not alive; what follows is up to another process. -/
  | elsewhere (message : WorkerMessage)
  | insert (message : WorkerMessage)
  | cloneWriter (message : WorkerMessage)
  | enqueue (message : WorkerMessage)
  | await (message : WorkerMessage)
  | remove (message : WorkerMessage) (result : Except WorkerError WorkerResponse)
  | returned (message : WorkerMessage) (result : Except WorkerError WorkerResponse)
  deriving DecidableEq

/-- It has cloned the sender of requests and not dropped it yet. -/
def DispatchPhase.hasWriter : DispatchPhase → Bool
  | .enqueue _ => true
  | _ => false

inductive WriterPhase
  | recv
  /-- So many bytes of a line are still to be written. -/
  | write (remaining : Nat)
  | crash
  /-- The jobs are cleared, and the receiver is not dropped yet. -/
  | ending
  | ended
  deriving DecidableEq

inductive WorkerReader (n : Nat)
  | reading
  | route (response : WorkerResponse)
  /-- It has a sender of the job in its hands. -/
  | send (response : WorkerResponse) (job : Fin n)
  | crash
  | stopped
  deriving DecidableEq

inductive ReaperPhase
  | wait
  | clearWriter
  | crash
  | ended
  deriving DecidableEq

/-- The handle, `n` round trips on it, and as much of the process as they see. -/
structure WorkerHandle (n : Nat) where
  jobs : HashMap String (Fin n)
  /-- What is in the channel of each job. -/
  responses : Fin n → List WorkerResponse
  dispatches : Fin n → DispatchPhase
  /-- The call that spawned the process has not come back with the handle yet. -/
  fresh : Bool
  writerTx : Bool
  requests : List WorkerMessage
  writer : WriterPhase
  /-- What the pipe to the process takes before someone reads it. -/
  room : Nat
  /-- Nobody reads that pipe any more. -/
  stdinClosed : Bool
  stdout : List WorkerLine
  stdoutClosed : Bool
  reader : WorkerReader n
  /-- The process is gone. -/
  gone : Bool
  exited : Bool
  reaper : ReaperPhase

/-- `mpsc::channel(64)`, for requests and for the responses to each job. -/
def CHANNEL_CAPACITY : Nat := 64

/-- The response that a round trip selects; any other one that is not streamed breaks the protocol. -/
def WorkerMessage.selects : WorkerMessage → WorkerResponse → Bool
  | .Run _, .Done _ _ _ => true
  | .ResolveTask _, .Resolved _ _ => true
  | _, _ => false

namespace WorkerHandle

variable {n : Nat}

def initial (n capacity : Nat) : WorkerHandle n where
  jobs := ∅
  responses := fun _ => []
  dispatches := fun _ => .idle
  fresh := true
  writerTx := true
  requests := []
  writer := .recv
  room := capacity
  stdinClosed := false
  stdout := []
  stdoutClosed := false
  reader := .reading
  gone := false
  exited := false
  reaper := .wait

variable (s : WorkerHandle n)

def setDispatch (i : Fin n) (phase : DispatchPhase) : WorkerHandle n :=
  { s with dispatches := Function.update s.dispatches i phase }

/-- Someone can still send to the job: the map has its sender, or the reader does. -/
def hasSender (i : Fin n) : Bool :=
  s.jobs.entries.any (·.2 = i) ||
    match s.reader with
    | .send _ job => job = i
    | _ => false

/-- A round trip keeps its receiver until it returns. -/
def hasReceiver (i : Fin n) : Bool :=
  match s.dispatches i with
  | .returned _ _ => false
  | _ => true

/-- What a round trip makes of a response. -/
def takeResponse (message : WorkerMessage) (response : WorkerResponse) : DispatchPhase :=
  if response.isTerminal then
    .remove message
      (if message.selects response then .ok response else .error (.Protocol message.id))
  else .await message

def dispatchStep (i : Fin n) : Option (WorkerHandle n) :=
  match s.dispatches i with
  | .idle | .elsewhere _ | .returned _ _ => none
  | .checkExited message =>
    some (s.setDispatch i (if s.exited then .elsewhere message else .checkWriter message))
  | .checkWriter message =>
    some (s.setDispatch i (if s.writerTx then .insert message else .elsewhere message))
  | .insert message =>
    some { s.setDispatch i (.cloneWriter message) with jobs := s.jobs.insert message.id i }
  | .cloneWriter message =>
    some (s.setDispatch i
      (if s.writerTx then .enqueue message else .remove message (.error (.Crashed message.id))))
  | .enqueue message =>
    if s.writer = .ended then some (s.setDispatch i (.remove message (.error (.Crashed message.id))))
    else if s.requests.length < CHANNEL_CAPACITY then
      some { s.setDispatch i (.await message) with requests := s.requests ++ [message] }
    else none
  | .await message =>
    match s.responses i with
    | response :: responses =>
      some { s.setDispatch i (takeResponse message response) with
        responses := Function.update s.responses i responses }
    | [] =>
      if s.hasSender i then none
      else some (s.setDispatch i (.remove message (.error (.Crashed message.id))))
  | .remove message result =>
    some { s.setDispatch i (.returned message result) with jobs := s.jobs.erase message.id }

/-- `crash_all_jobs`. -/
def crashAllJobs : WorkerHandle n := { s with jobs := ∅ }

/-- No dispatcher and no handle has a sender of requests any more. -/
def noRequester : Prop := s.writerTx = false ∧ ∀ i, (s.dispatches i).hasWriter = false

instance : Decidable s.noRequester :=
  inferInstanceAs (Decidable (s.writerTx = false ∧ ∀ i, (s.dispatches i).hasWriter = false))

/-- The next step of the writer. A request is a line of `lineBytes` bytes and its end. -/
def writerStep (lineBytes : WorkerMessage → Nat) : Option (WorkerHandle n) :=
  match s.writer with
  | .recv =>
    match s.requests with
    | message :: requests =>
      some { s with requests := requests, writer := .write (lineBytes message + 1) }
    | [] => if s.noRequester then some { s with writer := .ended } else none
  | .write remaining =>
    if remaining = 0 then some { s with writer := .recv }
    else if s.stdinClosed then some { s with writer := .crash }
    else if s.room = 0 then none
    else some { s with writer := .write (remaining - s.room), room := s.room - remaining }
  | .crash => some { s.crashAllJobs with writer := .ending }
  | .ending => some { s with writer := .ended }
  | .ended => none

/-- The next step of the reader. It waits where the channel of the job is full. -/
def readerStep : Option (WorkerHandle n) :=
  match s.reader with
  | .reading =>
    match s.stdout with
    | [] => if s.stdoutClosed then some { s with reader := .crash } else none
    | .response response :: stdout => some { s with stdout := stdout, reader := .route response }
    | .unparsable :: stdout | .unreadable :: stdout =>
      some { s with stdout := stdout, reader := .crash }
  | .route response =>
    some { s with reader :=
      match s.jobs.lookup response.id with
      | some job => .send response job
      | none => .reading }
  | .send response job =>
    if s.hasReceiver job then
      if (s.responses job).length < CHANNEL_CAPACITY then
        some { s with
          responses := Function.update s.responses job (s.responses job ++ [response])
          reader := .reading }
      else none
    else some { s with reader := .reading }
  | .crash => some { s.crashAllJobs with reader := .stopped }
  | .stopped => none

/-- The next step of the reaper; `contended` says that its `try_lock` fails. -/
def reaperStep (contended : Bool) : Option (WorkerHandle n) :=
  match s.reaper with
  | .wait => if s.gone then some { s with exited := true, reaper := .clearWriter } else none
  | .clearWriter => some { s with writerTx := s.writerTx && contended, reaper := .crash }
  | .crash => some { s.crashAllJobs with reaper := .ended }
  | .ended => none

end WorkerHandle

inductive WorkerStep (n : Nat)
  | call (i : Fin n) (message : WorkerMessage)
  /-- The call that spawned the process does not ask whether the handle is alive. -/
  | spawn (i : Fin n) (message : WorkerMessage)
  | dispatch (i : Fin n)
  | writer
  | reader
  | reaper (contended : Bool)
  /-- The process writes a line, or closes its stdout. -/
  | emit (line : WorkerLine)
  | closeStdout
  /-- The process reads from its stdin, or closes it. -/
  | drain (bytes : Nat)
  | closeStdin
  | exit
  deriving DecidableEq

def workerStep {n : Nat} (lineBytes : WorkerMessage → Nat) (capacity : Nat) (s : WorkerHandle n) :
    WorkerStep n → Option (WorkerHandle n)
  | .call i message =>
    match s.dispatches i with
    | .idle => some (s.setDispatch i (.checkExited message))
    | _ => none
  | .spawn i message =>
    match s.dispatches i with
    | .idle => if s.fresh then some { s.setDispatch i (.insert message) with fresh := false } else none
    | _ => none
  | .dispatch i => s.dispatchStep i
  | .writer => s.writerStep lineBytes
  | .reader => s.readerStep
  | .reaper contended => s.reaperStep contended
  | .emit line =>
    if s.stdoutClosed then none else some { s with stdout := s.stdout ++ [line] }
  | .closeStdout => some { s with stdoutClosed := true }
  | .drain bytes =>
    if s.room + bytes ≤ capacity then some { s with room := s.room + bytes } else none
  | .closeStdin => some { s with stdinClosed := true }
  | .exit => some { s with gone := true }

def workerHandle (n : Nat) (lineBytes : WorkerMessage → Nat) (capacity : Nat) :
    System (WorkerHandle n) (WorkerStep n) where
  init := (· = .initial n capacity)
  step := workerStep lineBytes capacity

end Luchta.Impl
