import Luchta.Framework.System
import Luchta.Framework.Text
import Luchta.Impl.WorkerProtocol

/-!
# The runtime of a worker

What `run_worker` does with the requests on its input. Each becomes a job of its own: a resolve task is
answered with what the delegate says, a run is handed to the worker, or to a child process whose output
two tasks turn into log lines, and is answered at its end. The worker's callbacks may return anything
and may panic, the child may do anything, and the jobs go on in any order.

* `RuntimeJob.step`: `handle_request` with `run_one_job`, and `spawn_resolve`.
* `workerRuntime`: the requests, the jobs and the lines that are written.

Left out: what a child is started with, and that writing may fail.
-/

namespace Luchta.Impl

open Luchta.Framework

/-! ## Errors -/

/-- The kinds of I/O errors, as far as they are told apart. -/
inductive StreamErrorKind
  | BrokenPipe
  | UnexpectedEof
  | ConnectionReset
  | Other
  deriving DecidableEq

def isPipeShutdownError : StreamErrorKind → Bool
  | .BrokenPipe | .UnexpectedEof | .ConnectionReset => true
  | .Other => false

inductive RuntimeError
  | Io (kind : StreamErrorKind)
  | Join
  deriving DecidableEq

def RuntimeError.isPipeShutdown : RuntimeError → Bool
  | Io kind => isPipeShutdownError kind
  | Join => false

/-! ## Contexts -/

def isValidReportFilename (name : String) : Bool :=
  !(name = "" || name = "." || name = ".." || containsStr name "..") &&
    !('/' ∈ name.toList || '\\' ∈ name.toList) &&
    name ∉ ["stdout.log", "stderr.log", "meta.bincode"]

structure JobContext where
  id : String
  progressEnabled : Bool
  deriving DecidableEq

/-- What a callback asks of its context. -/
inductive Emission
  | stdout (line : String)
  | stderr (line : String)
  | report (filename mimeType content : String)
  | progress (completed pending : Nat)
  deriving DecidableEq

/-- The line that is written, if any. -/
def JobContext.emit (context : JobContext) : Emission → Option WorkerResponse
  | .stdout line => some (.Log context.id .Stdout line)
  | .stderr line => some (.Log context.id .Stderr line)
  | .report filename mimeType content =>
    some (if isValidReportFilename filename then .Report context.id filename mimeType content
      else .Log context.id .Stderr ("ignored invalid report filename: " ++ filename))
  | .progress completed pending =>
    if context.progressEnabled then some (.Progress context.id completed pending) else none

inductive InProcessOutcome
  | NotHandled
  | Done (exitCode : Int32) (outputs : Option (List String))
  deriving DecidableEq

/-! ## Jobs -/

/-- A task that turns the output of a child into log lines. -/
inductive StreamTask
  | notStarted
  | running
  | ended (result : Except RuntimeError Unit)
  deriving DecidableEq

inductive JobPhase
  | resolveTask
  | runInProcess
  | buildJob
  /-- The failure of `build_job` is to be logged. -/
  | logFailure (message : String)
  | spawnChild
  | wait
  | joinStdout (code : Option Int32)
  | joinStderr (code : Option Int32)
  | doneResponse (exitCode : Int32)
  | writeResponse (response : WorkerResponse)
  | ended
  deriving DecidableEq

structure RuntimeJob where
  message : WorkerMessage
  phase : JobPhase
  stdout : StreamTask
  stderr : StreamTask
  /-- What `run_in_process` is given; it may keep a clone. -/
  context : Option JobContext
  deriving DecidableEq

inductive JobStep
  | emit (emission : Emission)
  /-- No outcome where the callback panics; so below. -/
  | runInProcess (outcome : Option InProcessOutcome)
  | buildJob (outcome : Option (Except String Unit))
  | logFailure
  | spawnChild (error : Option RuntimeError)
  | line (stream : LogStream) (text : String)
  | streamEnd (stream : LogStream) (result : Except RuntimeError Unit)
  | exit (status : Except RuntimeError (Option Int32))
  | joinStdout
  | joinStderr
  | doneResponse (response : Option WorkerResponse)
  /-- An error is the text of a panic. -/
  | resolveTask (result : Except String ResolveResult)
  | writeResponse
  deriving DecidableEq

namespace RuntimeJob

/-- `spawn_request`. -/
def spawn : WorkerMessage → RuntimeJob
  | .Run request => ⟨.Run request, .runInProcess, .notStarted, .notStarted,
      some ⟨request.id, request.progress⟩⟩
  | .ResolveTask resolve => ⟨.ResolveTask resolve, .resolveTask, .notStarted, .notStarted, none⟩

variable (job : RuntimeJob)

def id : String := job.message.id

/-- `run_one_job` has failed; its stream tasks are left alone. -/
def failed (error : RuntimeError) : RuntimeJob :=
  { job with phase := if error.isPipeShutdown then .ended else .doneResponse 1 }

def stream : LogStream → StreamTask
  | .Stdout => job.stdout
  | .Stderr => job.stderr

def setStream (task : StreamTask) : LogStream → RuntimeJob
  | .Stdout => { job with stdout := task }
  | .Stderr => { job with stderr := task }

/-- The phase after `build_job`. -/
def built : Option (Except String Unit) → RuntimeJob
  | some (.ok ()) => { job with phase := .spawnChild }
  | some (.error message) => { job with phase := .logFailure message }
  | none => job.failed .Join

def handled : Option InProcessOutcome → RuntimeJob
  | some (.Done exitCode outputs) => { job with phase := .writeResponse (.Done job.id exitCode outputs) }
  | some .NotHandled => { job with phase := .buildJob }
  | none => { job with phase := .ended }

def resolved : Except String ResolveResult → ResolveResult
  | .ok result => result
  | .error joinError => .Reject ("resolve delegate panicked: " ++ joinError)

/-- The next step of a job, and the line that it writes. -/
def step : JobStep → Option (RuntimeJob × Option WorkerResponse)
  | .emit emission => job.context.map fun context => (job, context.emit emission)
  | .runInProcess outcome =>
    if job.phase = .runInProcess then some (job.handled outcome, none) else none
  | .buildJob outcome => if job.phase = .buildJob then some (job.built outcome, none) else none
  | .logFailure =>
    match job.phase with
    | .logFailure message =>
      some ({ job with phase := .doneResponse 1 }, some (.Log job.id .Stderr message))
    | _ => none
  | .spawnChild error =>
    if job.phase = .spawnChild then
      some (error.elim { job with phase := .wait, stdout := .running, stderr := .running } job.failed,
        none)
    else none
  | .line stream text =>
    if job.stream stream = .running then some (job, some (.Log job.id stream text)) else none
  | .streamEnd stream result =>
    if job.stream stream = .running then some (job.setStream (.ended result) stream, none) else none
  | .exit status =>
    if job.phase = .wait then
      match status with
      | .ok code => some ({ job with phase := .joinStdout code }, none)
      | .error error => some (job.failed error, none)
    else none
  | .joinStdout =>
    match job.phase, job.stdout with
    | .joinStdout code, .ended (.ok ()) => some ({ job with phase := .joinStderr code }, none)
    | .joinStdout _, .ended (.error error) => some (job.failed error, none)
    | _, _ => none
  | .joinStderr =>
    match job.phase, job.stderr with
    | .joinStderr code, .ended (.ok ()) =>
      some ({ job with phase := .doneResponse (code.getD 1) }, none)
    | .joinStderr _, .ended (.error error) => some (job.failed error, none)
    | _, _ => none
  | .doneResponse response =>
    match job.phase with
    | .doneResponse _ => some ({ job with phase := response.elim .ended .writeResponse }, none)
    | _ => none
  | .resolveTask result =>
    if job.phase = .resolveTask then
      some ({ job with phase := .writeResponse (.Resolved job.id (resolved result)) }, none)
    else none
  | .writeResponse =>
    match job.phase with
    | .writeResponse response => some ({ job with phase := .ended }, some response)
    | _ => none

end RuntimeJob

/-! ## The runtime -/

inductive RuntimePhase
  | reading
  | draining
  | returned
  deriving DecidableEq

structure WorkerRuntime where
  main : RuntimePhase
  /-- One for every request that was read, in order. -/
  jobs : List RuntimeJob
  output : List WorkerResponse

inductive RuntimeStep
  | read (message : WorkerMessage)
  | endOfInput
  | readError (kind : StreamErrorKind)
  | drained
  | job (index : Nat) (step : JobStep)
  deriving DecidableEq

namespace WorkerRuntime

def initial : WorkerRuntime := ⟨.reading, [], []⟩

def step (s : WorkerRuntime) : RuntimeStep → Option WorkerRuntime
  | .read message =>
    if s.main = .reading then some { s with jobs := s.jobs ++ [.spawn message] } else none
  | .endOfInput => if s.main = .reading then some { s with main := .draining } else none
  | .readError kind =>
    if s.main = .reading then
      -- jobs that are not drained are aborted
      some (if isPipeShutdownError kind then { s with main := .draining }
        else { s with main := .returned, jobs := s.jobs.map fun job => { job with phase := .ended } })
    else none
  | .drained =>
    if s.main = .draining ∧ ∀ job ∈ s.jobs, job.phase = .ended then some { s with main := .returned }
    else none
  | .job index jobStep => do
    let job ← s.jobs[index]?
    let (job, line) ← job.step jobStep
    return { s with jobs := s.jobs.set index job, output := s.output ++ line.toList }

end WorkerRuntime

def workerRuntime : System WorkerRuntime RuntimeStep where
  init := (· = .initial)
  step := WorkerRuntime.step

end Luchta.Impl
