import Luchta.Framework.Limiter
import Luchta.Framework.System
import Luchta.Framework.Text

/-!
# Remote operations

The threads that talk to the remote cache (`remote.rs`, `rclone/mod.rs`), with the two limiters they pass:
the one of complete operations (`limiter.rs`), and inside it the one of rclone calls. A step is one access
to what the threads share: a limiter, which its lock makes one step, or an atomic. The operations differ in
what they ask rclone for; each calls it at most once, and fails before that where a local path is no good.

* `RcloneError.isMissingLocalSourceCopy`, `RcloneError.disableReason`: `is_missing_local_source_copy_error`,
  `remote_disable_reason`.
* `RemoteOperations`: `RemoteState`, the limiter of rclone calls, and where each thread is.
* `operationStep`: `remote_operation`, and the call inside it.
* `recordStep`: `record_remote_error`, `record_timeout`, `disable_with_warning`, and
  `cancel_timed_out_pushes`.

Left out: the counters, the warnings of single operations, and the daemon.
-/

namespace Luchta.Impl

open Luchta.Framework

inductive RcloneError
  | RemoteUnavailable (reason : String)
  /-- In whole seconds. -/
  | Timeout (timeout : Nat)
  | Process (reason : String)
  | Request (reason : String)
  | HttpStatus (status : Nat) (body : String)
  | Rc (message : String)
  | Decode (err : String)
  | Io (err : String)
  deriving DecidableEq

namespace RcloneError

def isMissingLocalSourceCopy : RcloneError → Bool
  | HttpStatus status body =>
    if status ≠ 500 then false
    else
      let body := body.toLower
      (containsStr body "failed to open source object" || containsStr body "object not found") &&
        (containsStr body "lstat" || containsStr body "srcremote") && containsStr body "no such file"
  | _ => false

def disableReason : RcloneError → String
  | Timeout timeout => s!"sync timed out after {timeout}s"
  | RemoteUnavailable reason => reason
  | HttpStatus status _ => s!"remote operation failed with HTTP {status}"
  | Rc message => s!"remote operation failed: {message}"
  | Request reason => s!"remote request failed: {reason}"
  | Process reason => s!"remote process failed: {reason}"
  | Decode err => s!"remote response decode failed: {err}"
  | Io err => s!"remote I/O failed: {err}"

/-- The errors that `record_remote_error` returns at. -/
def ignored : RcloneError → Bool
  | HttpStatus 404 _ => true
  | err => err.isMissingLocalSourceCopy

def isTimeout : RcloneError → Bool
  | Timeout _ => true
  | _ => false

end RcloneError

def flushTimeoutReason : String := "final flush exceeded shared-cache sync timeout"

/-- Where a thread is in an operation, or in recording how one ended. -/
inductive OperationPhase
  | idle
  /-- It asks for the permit of an operation. -/
  | waiting
  /-- It has the permit from here on. -/
  | checkDisabled
  | checkCancelled
  | readDeadline
  | operation
  /-- It asks for the permit of an rclone call. -/
  | waitingRclone
  | calling
  | called
  | returned (result : Option RcloneError)
  | refused
  /-- The permit is given back. -/
  | record (err : RcloneError)
  | disable (reason : String)
  | setReason (reason : String)
  | warn (reason : String)
  /-- In `cancel_timed_out_pushes`. -/
  | flushTimedOut
  | countTimedOut
  deriving DecidableEq

/-- What a thread brings up against the remote. -/
inductive Evidence
  | error (err : RcloneError)
  | flushTimeout
  deriving DecidableEq

structure RemoteOperations (n : Nat) where
  limiter : Limiter (Fin n)
  rclone : Limiter (Fin n)
  disabled : Bool
  warned : Bool
  timeoutCount : Nat
  timeoutDisableThreshold : Nat
  disableReason : Option String
  cancelled : Bool
  threads : Fin n → OperationPhase
  /-- The warnings that were printed. -/
  printed : List String
  /-- What was brought up, in the order in which it was. -/
  evidence : List Evidence
  /-- How many operations passed all the checks. -/
  started : Nat

inductive OperationLabel (n : Nat)
  | begin (i : Fin n)
  /-- A waiting thread wakes without being notified. -/
  | wake (i : Fin n)
  | wakeRclone (i : Fin n)
  | operation (i : Fin n)
  /-- The time that is left, or the default. -/
  | deadline (i : Fin n) (timeout : Nat)
  | finish (i : Fin n) (result : Option RcloneError)
  /-- A permit is given back, and the thread notified that the operating system chooses. -/
  | release (i : Fin n) (notified : Option (Fin n))
  | record (i : Fin n)
  | cancelTimedOut (i : Fin n)
  | discard
  deriving DecidableEq

namespace RemoteOperations

variable {n : Nat} (s : RemoteOperations n)

def new (n concurrency timeoutDisableThreshold : Nat) : RemoteOperations n where
  limiter := .new (max concurrency 1)
  rclone := .new (max concurrency 1)
  disabled := false
  warned := false
  timeoutCount := 0
  timeoutDisableThreshold := max timeoutDisableThreshold 1
  disableReason := none
  cancelled := false
  threads := fun _ => .idle
  printed := []
  evidence := []
  started := 0

def setThread (i : Fin n) (phase : OperationPhase) : RemoteOperations n :=
  { s with threads := Function.update s.threads i phase }

/-- `acquire` of the operation limiter looks at the count. -/
def begin (i : Fin n) : Option (RemoteOperations n) :=
  match s.threads i with
  | .idle =>
    some { s.setThread i (if s.limiter.inUse < s.limiter.limit then .checkDisabled else .waiting) with
      limiter := s.limiter.enter i }
  | _ => none

def operationStep (i : Fin n) : Option (RemoteOperations n) :=
  match s.threads i with
  | .waiting => (s.limiter.retry i).map fun limiter =>
      { s.setThread i (if s.limiter.inUse < s.limiter.limit then .checkDisabled else .waiting) with
        limiter := limiter }
  | .checkDisabled => some (s.setThread i (if s.disabled then .refused else .checkCancelled))
  | .checkCancelled => some (s.setThread i (if s.cancelled then .refused else .readDeadline))
  | .operation =>
    some { s.setThread i (if s.rclone.inUse < s.rclone.limit then .calling else .waitingRclone) with
      rclone := s.rclone.enter i }
  | .waitingRclone => (s.rclone.retry i).map fun rclone =>
      { s.setThread i (if s.rclone.inUse < s.rclone.limit then .calling else .waitingRclone) with
        rclone := rclone }
  | _ => none

def deadline (i : Fin n) (timeout : Nat) : Option (RemoteOperations n) :=
  match s.threads i with
  | .readDeadline =>
    if timeout = 0 then some (s.setThread i .refused)
    else some { s.setThread i .operation with started := s.started + 1 }
  | _ => none

/-- The operation comes back: from rclone, or from before the call, with an error. -/
def finish (i : Fin n) (result : Option RcloneError) : Option (RemoteOperations n) :=
  match s.threads i, result with
  | .operation, some err => some (s.setThread i (.returned (some err)))
  | .called, result => some (s.setThread i (.returned result))
  | _, _ => none

/-- A permit is dropped. -/
def release (i : Fin n) (notified : Option (Fin n)) : Option (RemoteOperations n) :=
  match s.threads i with
  | .calling => (s.rclone.leave i notified).map fun rclone => { s.setThread i .called with rclone := rclone }
  | .returned none | .refused =>
    (s.limiter.leave i notified).map fun limiter => { s.setThread i .idle with limiter := limiter }
  | .returned (some err) =>
    (s.limiter.leave i notified).map fun limiter => { s.setThread i (.record err) with limiter := limiter }
  | _ => none

/-- `record_timeout`, up to where it may go on with `disable_with_warning`. -/
def recordTimeout (i : Fin n) (reason : String) : RemoteOperations n :=
  { s.setThread i (if s.timeoutDisableThreshold ≤ s.timeoutCount + 1 then .disable reason else .idle) with
    timeoutCount := s.timeoutCount + 1 }

def recordStep (i : Fin n) : Option (RemoteOperations n) :=
  match s.threads i with
  | .record err =>
    if err.ignored then some { s.setThread i .idle with evidence := s.evidence ++ [.error err] }
    else if err.isTimeout then
      some { s.recordTimeout i err.disableReason with evidence := s.evidence ++ [.error err] }
    else
      some { s.setThread i (.disable err.disableReason) with evidence := s.evidence ++ [.error err] }
  | .flushTimedOut => some { s.setThread i .countTimedOut with disableReason := some flushTimeoutReason }
  | .countTimedOut =>
    some { s.recordTimeout i flushTimeoutReason with evidence := s.evidence ++ [.flushTimeout] }
  | .disable reason => some { s.setThread i (.setReason reason) with disabled := true }
  | .setReason reason => some { s.setThread i (.warn reason) with disableReason := some reason }
  | .warn reason => some { s.setThread i .idle with
      warned := true
      printed := if s.warned then s.printed else s.printed ++ [reason] }
  | _ => none

def cancelTimedOut (i : Fin n) : Option (RemoteOperations n) :=
  match s.threads i with
  | .idle => some { s.setThread i .flushTimedOut with cancelled := true }
  | _ => none

def wake (i : Fin n) : Option (RemoteOperations n) :=
  (s.limiter.wake i).map fun limiter => { s with limiter := limiter }

def wakeRclone (i : Fin n) : Option (RemoteOperations n) :=
  (s.rclone.wake i).map fun rclone => { s with rclone := rclone }

def step : OperationLabel n → Option (RemoteOperations n)
  | .begin i => s.begin i
  | .wake i => s.wake i
  | .wakeRclone i => s.wakeRclone i
  | .operation i => s.operationStep i
  | .deadline i timeout => s.deadline i timeout
  | .finish i result => s.finish i result
  | .release i notified => s.release i notified
  | .record i => s.recordStep i
  | .cancelTimedOut i => s.cancelTimedOut i
  | .discard => some { s with cancelled := true }

end RemoteOperations

/-- The threads of a remote with this concurrency, in any order of steps. -/
def remoteOperations (n concurrency timeoutDisableThreshold : Nat) :
    System (RemoteOperations n) (OperationLabel n) where
  init s := s = .new n concurrency timeoutDisableThreshold
  step s l := s.step l

end Luchta.Impl
