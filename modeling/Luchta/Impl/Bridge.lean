import Luchta.Framework.Channel
import Luchta.Framework.System
import Luchta.Impl.Watcher

/-!
# The watcher bridge

Callbacks of the backend hand event and error lists to a bounded channel; the bridge task turns them
into batches for the driver. What does not fit into the channel leaves a flag or a failure behind,
and a permit that wakes the bridge. Callbacks, bridge and driver take their steps in any order.
-/

namespace Luchta.Impl

open Luchta.Framework

inductive RawWatchMessage
  | Events (events : List DebouncedEvent)
  | Errors (errors : List NotifyError)

/-- What `forward` does next. -/
inductive ForwardPhase
  | trySend
  /-- The channel was full. -/
  | latch
  | notify
  | returned
  deriving DecidableEq

/-- The ignore filter and the file system that the bridge saw. -/
structure View where
  filter : IgnoreFilter
  fs : FsView

/-- A call of `forward`, and two things that it does not know: how many batches had been sent when it
began, and what the bridge saw when it made a batch of the events. -/
structure ForwardCall where
  message : RawWatchMessage
  phase : ForwardPhase
  sentBefore : Nat
  view : Option View

inductive BridgeInput
  | Message (call : Nat) (message : RawWatchMessage)
  | OverflowWake

inductive StopReason
  | Shutdown
  | Closed
  | ReceiverGone
  | Failure
  deriving DecidableEq

/-- What the bridge does next. -/
inductive BridgePhase
  | next
  | process (input : BridgeInput)
  | takeFailure (batch : WatchBatch)
  | swapOverflow (batch : WatchBatch)
  | send (batch : WatchBatch)
  | stopped (reason : StopReason)

/-- The calls, and what they share with the bridge and the driver. Messages carry the number of the
call that sent them, for statements to speak of it. -/
structure BridgeState where
  calls : List ForwardCall
  raw : Channel (Nat × RawWatchMessage)
  rawOverflowed : Bool
  rawFailure : Lock (Option String)
  rawOverflowWake : Bool
  /-- The debouncer, and with it the only sender, is gone. -/
  senderGone : Bool
  ignoreFilter : Lock IgnoreFilter
  watchedDirs : Lock (Finset Path)
  debouncer : Lock Unit
  batches : Channel WatchBatch
  shutdown : Bool
  phase : BridgePhase
  /-- Every batch that was ever sent. -/
  sent : List WatchBatch

inductive BridgeLabel
  /-- A callback calls `forward`. -/
  | call (message : RawWatchMessage)
  /-- A call takes its next step. -/
  | forward (i : Nat)
  | recv
  | wake
  | closed
  | cancelled
  /-- The job that makes a batch of the events ends, or fails. -/
  | process (job : Except String (FsView × WatchOutcome))
  | takeFailure
  | swapOverflow
  | send
  /-- The driver takes a batch, or is gone. -/
  | receive
  | dropReceiver
  | cancel
  | dropSender
  /-- Another owner of the locks replaces what they guard, or poisons them. -/
  | share (ignoreFilter : Lock IgnoreFilter) (watchedDirs : Lock (Finset Path)) (debouncer : Lock Unit)
  | poisonFailure

namespace BridgeState

def setCall (s : BridgeState) (i : Nat) (call : ForwardCall) : BridgeState :=
  { s with calls := s.calls.set i call }

/-- One step of `forward`, after the full channel split by the kind of the message. -/
def forward (s : BridgeState) (i : Nat) : Option BridgeState := do
  let call ← s.calls[i]?
  match call.phase with
  | .trySend =>
    match s.raw.trySend (i, call.message) with
    | (raw, .full) => return { s with raw := raw }.setCall i { call with phase := .latch }
    | (raw, _) => return { s with raw := raw }.setCall i { call with phase := .returned }
  | .latch =>
    let s := s.setCall i { call with phase := .notify }
    match call.message with
    | .Events _ => return { s with rawOverflowed := true }
    | .Errors errors =>
      match (backendErrorBatch errors).failure with
      | some failure =>
        return { s with rawFailure := s.rawFailure.map fun pending => some (pending.getD failure) }
      | none => return { s with rawOverflowed := true }
  | .notify =>
    return { s with rawOverflowWake := true }.setCall i { call with phase := .returned }
  | .returned => none

/-- The end of the task, which drops its receiver. -/
def stop (s : BridgeState) (reason : StopReason) : BridgeState :=
  { s with phase := .stopped reason, raw := s.raw.close }

def JOB_FAILED : String := "watch event processing job failed: "

/-- `process_bridge_input`. -/
def processInput (s : BridgeState) (input : BridgeInput)
    (job : Except String (FsView × WatchOutcome)) : BridgeState :=
  match input with
  | .OverflowWake => { s with phase := .takeFailure .default }
  | .Message _ (.Errors errors) => { s with phase := .takeFailure (backendErrorBatch errors) }
  | .Message i (.Events events) =>
    match job with
    | .error error =>
      { s with phase := .takeFailure { WatchBatch.default with failure := some (JOB_FAILED ++ error) } }
    | .ok (fs, watch) =>
      let r := bridgeEventBatch fs watch s.debouncer s.ignoreFilter s.watchedDirs events
      { s with
        phase := .takeFailure r.1
        watchedDirs := r.2
        calls := s.calls.modify i fun call =>
          { call with view := s.ignoreFilter.map fun filter => ⟨filter, fs⟩ } }

def FAILURE_LOCK_POISONED : String := "filesystem watcher failure state lock poisoned"

def appendLatchedFailure (batch : WatchBatch) (rawFailure : Lock (Option String)) :
    WatchBatch × Lock (Option String) :=
  let (failure, rawFailure) := match rawFailure with
    | some failure => (failure, some none)
    | none => (some FAILURE_LOCK_POISONED, none)
  match failure with
  | none => (batch, rawFailure)
  | some failure =>
    ({ batch with failure := some (match batch.failure with
        | some existing => existing ++ "; " ++ failure
        | none => failure) }, rawFailure)

def OVERFLOW_WARNING : String :=
  "filesystem event queue overflowed; some path events were coalesced"

def appendOverflowRecovery (batch : WatchBatch) (rawOverflowed : Bool) : WatchBatch :=
  if rawOverflowed then
    { batch with structural := true, rescan := true, warnings := batch.warnings ++ [OVERFLOW_WARNING] }
  else batch

/-- `send_bridge_batch`, once there is room for the batch or the receiver is gone. -/
def sendBatch (s : BridgeState) (batch : WatchBatch) : Option BridgeState :=
  if s.batches.closed then some (s.stop .ReceiverGone)
  else if s.batches.queue.length < s.batches.capacity then
    let s := { s with batches := s.batches.push batch, sent := s.sent ++ [batch] }
    if batch.failure.isSome then some (s.stop .Failure) else some { s with phase := .next }
  else none

def step (s : BridgeState) : BridgeLabel → Option BridgeState
  | .call message =>
    if s.senderGone then none
    else some { s with calls := s.calls ++ [⟨message, .trySend, s.sent.length, none⟩] }
  | .forward i => s.forward i
  | .recv =>
    match s.phase, s.raw.recv with
    | .next, some (message, raw) =>
      some { s with raw := raw, phase := .process (.Message message.1 message.2) }
    | _, _ => none
  | .wake =>
    match s.phase with
    | .next =>
      if s.rawOverflowWake then
        some { s with rawOverflowWake := false, phase := .process .OverflowWake }
      else none
    | _ => none
  | .closed =>
    match s.phase with
    | .next => if s.senderGone && s.raw.queue.isEmpty then some (s.stop .Closed) else none
    | _ => none
  | .cancelled =>
    match s.phase with
    | .next | .process _ | .send _ => if s.shutdown then some (s.stop .Shutdown) else none
    | _ => none
  | .process job =>
    match s.phase with
    | .process input => some (s.processInput input job)
    | _ => none
  | .takeFailure =>
    match s.phase with
    | .takeFailure batch =>
      let r := appendLatchedFailure batch s.rawFailure
      some { s with phase := .swapOverflow r.1, rawFailure := r.2 }
    | _ => none
  | .swapOverflow =>
    match s.phase with
    | .swapOverflow batch =>
      let batch := appendOverflowRecovery batch s.rawOverflowed
      some { s with rawOverflowed := false, phase := if batch.isEmpty then .next else .send batch }
    | _ => none
  | .send =>
    match s.phase with
    | .send batch => s.sendBatch batch
    | _ => none
  | .receive => s.batches.recv.map fun r => { s with batches := r.2 }
  | .dropReceiver => some { s with batches := s.batches.close }
  | .cancel => some { s with shutdown := true }
  | .dropSender => some { s with senderGone := true }
  | .share ignoreFilter watchedDirs debouncer =>
    some { s with ignoreFilter := ignoreFilter, watchedDirs := watchedDirs, debouncer := debouncer }
  | .poisonFailure => some { s with rawFailure := none }

end BridgeState

def DEFAULT_CHANNEL_CAPACITY : Nat := 32

def bridgeStart (ignoreFilter : IgnoreFilter) (watchedDirs : Finset Path) : BridgeState where
  calls := []
  raw := .empty DEFAULT_CHANNEL_CAPACITY
  rawOverflowed := false
  rawFailure := some none
  rawOverflowWake := false
  senderGone := false
  ignoreFilter := some ignoreFilter
  watchedDirs := some watchedDirs
  debouncer := some ()
  batches := .empty DEFAULT_CHANNEL_CAPACITY
  shutdown := false
  phase := .next
  sent := []

/-- The bridge that `spawn_watcher` starts. -/
def bridgeSystem : System BridgeState BridgeLabel where
  init s := ∃ ignoreFilter watchedDirs, s = bridgeStart ignoreFilter watchedDirs
  step := BridgeState.step

end Luchta.Impl
