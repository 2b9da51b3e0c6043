import Luchta.Framework.System
import Luchta.Impl.Watcher
import Mathlib.Data.Finset.Lattice.Basic

/-!
# The watch loop

The driver of watch mode (`watch/driver.rs`) and the task that drains the watcher's batches, over what they
share: the pending changes, the token of the active cycle, and the permit that wakes the driver. A step is
one access to what they share, so that a batch may come in between any two steps of the driver. What the
driver asks of the rest of the program (the build lock, the recovery of the workspace, the packages that
changes affect, a cycle) answers in any way.

* `PendingState`: `PendingChanges`, each method with what it returns.
* `RecoveryRetry`: the delays between recoveries.
* `recoverStructuralWatchState`: the recovery, from what discovery, the rebuild and the watcher answer.
* `drainStep`: `spawn_change_drain_task` and `apply_watch_batch`.
* `driveStep`, `complete`, `judge`: `run_initial_watch_cycle`, `run_one_iteration` and what they call.

Left out: what is printed, and the shutdown of the session once the loop has ended. A build lock that is
`none` stands for a wait for it that was interrupted.
-/

namespace Luchta.Impl

open Luchta.Framework

/-! ## Pending changes -/

structure PendingState where
  paths : Finset Path
  structural : Bool
  rescan : Bool
  watcherFailure : Option String
  deriving DecidableEq

namespace PendingState

def empty : PendingState := ⟨∅, false, false, none⟩

variable (p : PendingState)

def isEmpty : Bool := decide (p.paths = ∅) && !p.structural && !p.rescan && p.watcherFailure.isNone

def hasChanges : Bool := !p.isEmpty

/-- With it, whether nothing was pending before. -/
def add (batch : Finset Path) : Bool × PendingState :=
  if batch = ∅ then (false, p)
  else
    let pending := { p with paths := p.paths ∪ batch }
    (p.isEmpty && !pending.isEmpty, pending)

def markStructural : Bool × PendingState := (p.isEmpty, { p with structural := true })

def takeStructural : Bool × PendingState := (p.structural, { p with structural := false })

def markRescan : Bool × PendingState := (p.isEmpty, { p with rescan := true })

def takeRescan : Bool × PendingState := (p.rescan, { p with rescan := false })

def markWatcherFailed (message : String) : PendingState :=
  { p with watcherFailure := some (p.watcherFailure.getD message) }

def takeWatcherFailure : Option String × PendingState :=
  (p.watcherFailure, { p with watcherFailure := none })

def drainNonEmpty : Option (Finset Path) × PendingState :=
  (if p.paths = ∅ then none else some p.paths, { p with paths := ∅ })

end PendingState

/-! ## Recovery -/

/-- In milliseconds. -/
def RECOVERY_RETRY_MIN : Nat := 250
def RECOVERY_RETRY_MAX : Nat := 5000

structure RecoveryRetry where
  consecutiveFailures : Nat
  retryAt : Option Nat
  deriving DecidableEq

namespace RecoveryRetry

def default : RecoveryRetry := ⟨0, none⟩

def recordFailure (r : RecoveryRetry) (now : Nat) : Nat × RecoveryRetry :=
  let consecutiveFailures := min (r.consecutiveFailures + 1) (2 ^ 32 - 1)
  let exponent := min (consecutiveFailures - 1) 5
  let delay := min (RECOVERY_RETRY_MIN * 2 ^ exponent) RECOVERY_RETRY_MAX
  (delay, ⟨consecutiveFailures, some (now + delay)⟩)

def remainingDelay (r : RecoveryRetry) (now : Nat) : Nat :=
  match r.retryAt with
  | some retryAt => retryAt - now
  | none => 0

def reset (_ : RecoveryRetry) : RecoveryRetry := ⟨0, none⟩

end RecoveryRetry

inductive StructuralPackageSetDiff
  | Changed (paths : Finset Path)
  | Unchanged
  | KeepPrevious

inductive RecoveryOutcome
  | Complete
  | Retry (requiresRescan : Bool)
  | Fatal (message : String)
  deriving DecidableEq

/-- What a recovery is answered by the code it calls. -/
structure RecoveryAnswers where
  /-- The package paths that discovery finds. -/
  discovered : Except String (Finset Path)
  /-- The package paths that discovery finds during the rebuild, if the graphs can be built. -/
  rebuilt : Except String (Finset Path)
  /-- The error of the reconciliation, and whether it is terminal. -/
  reconcile : Except (Bool × String) Unit

def diffDiscoveredPackagePaths (currentPackagePaths : Finset Path) :
    Except String (Finset Path) → StructuralPackageSetDiff
  | .ok discovered => if discovered = currentPackagePaths then .Unchanged else .Changed discovered
  | .error _ => .KeepPrevious

/-- The package paths of the session afterwards, and the outcome. -/
def rebuildAndReconcileWatchState (answers : RecoveryAnswers) (current packagePaths : Finset Path) :
    Finset Path × RecoveryOutcome :=
  match answers.rebuilt with
  | .error _ => (current, .Retry false)
  | .ok found => (found ∩ packagePaths, match answers.reconcile with
    | .ok _ => .Complete
    | .error (terminal, error) => if terminal then .Fatal error else .Retry true)

def recoverStructuralWatchState (answers : RecoveryAnswers) (current : Finset Path) :
    Finset Path × RecoveryOutcome :=
  match diffDiscoveredPackagePaths current answers.discovered with
  | .KeepPrevious => (current, .Retry false)
  | .Unchanged => rebuildAndReconcileWatchState answers current current
  | .Changed discovered => rebuildAndReconcileWatchState answers current discovered

/-! ## The two tasks -/

/-- The changes that an iteration took, and the packages that its cycle is for (`none`: all). -/
structure ProcessedChanges where
  changed : Finset Path
  structural : Bool
  rescan : Bool
  affected : Option (Finset String)
  deriving DecidableEq

/-- The cycle that the driver is about to begin. -/
inductive CyclePlan
  | initial
  | iteration (changes : ProcessedChanges)
  deriving DecidableEq

/-- What the driver waits for in `wait_for_watch_operation`. -/
inductive WatchOperation
  | lock (plan : CyclePlan)
  | sleep (structural rescan : Bool)
  | recover (structural rescan : Bool)
  deriving DecidableEq

inductive WatchOutput
  | locked (lock : Except String Bool)
  | slept
  | recovered (answers : RecoveryAnswers)

inductive CycleResult
  | finished
  | error (message : String)
  deriving DecidableEq

/-- What the driver does next. -/
inductive DriverPlace
  /-- `check_watcher_failure`, before an operation is awaited or after a wake-up. -/
  | check (operation : WatchOperation)
  | awaiting (operation : WatchOperation)
  /-- `begin_cycle_if_caught_up`. -/
  | set (plan : CyclePlan)
  | caughtUp (plan : CyclePlan) (token : Nat)
  | clear (plan : CyclePlan)
  /-- `requeue_processed_changes`. -/
  | requeue (changes : ProcessedChanges)
  | markStructural (rescan : Bool)
  | markRescan
  | running (plan : CyclePlan) (token : Nat)
  | finished (result : CycleResult)
  /-- A cycle is waited for once the loop has been asked to end. -/
  | stopping
  /-- `wait_for_pending_or_shutdown`. -/
  | hasChanges
  | parked
  | checkFailure
  | takeRescan
  | takeStructural (rescan : Bool)
  | drain (structural rescan : Bool)
  | judge (changed : Finset Path) (structural : Bool)
  | stopped
  | failed (message : String)
  deriving DecidableEq

/-- What the drain task does next; `closed` once the watcher is gone. -/
inductive DrainPlace
  | receive
  | markFailed (message : String) (closed : Bool)
  | markStructural (batch : WatchBatch)
  | markRescan (batch : WatchBatch)
  | add (batch : WatchBatch)
  | cancel (closed : Bool)
  | notify (closed : Bool)
  | done

structure WatchLoop where
  pending : PendingState
  wake : Bool
  /-- The token in `ActiveCycle`. Tokens are numbered in the order in which they are made. -/
  active : Option Nat
  tokens : Nat
  cancelled : List Nat
  retry : RecoveryRetry
  packagePaths : Finset Path
  drain : DrainPlace
  driver : DriverPlace

inductive LoopLabel
  | receive (batch : WatchBatch)
  | close
  | drain
  /-- The driver goes on, at this time. -/
  | drive (now : Nat)
  | wake
  | complete (output : WatchOutput) (now : Nat)
  /-- The packages that the changes affect, and these with what depends on them. -/
  | judge (affected expanded : Finset String)
  | finish (result : CycleResult)
  | shutdown

namespace WatchLoop

variable (s : WatchLoop)

def cancelIfActive : WatchLoop :=
  match s.active with
  | some token => { s with active := none, cancelled := token :: s.cancelled }
  | none => s

def drainStep : Option WatchLoop :=
  match s.drain with
  | .receive | .done => none
  | .markFailed message closed => some
    { s with pending := s.pending.markWatcherFailed message, drain := .cancel closed }
  | .markStructural batch => some
    { s with
      pending := if batch.structural then s.pending.markStructural.2 else s.pending
      drain := .markRescan batch }
  | .markRescan batch => some
    { s with
      pending := if batch.rescan then s.pending.markRescan.2 else s.pending
      drain := .add batch }
  | .add batch =>
    let added := s.pending.add batch.changedPaths
    let shouldWake := batch.structural || batch.rescan || added.1
    some { s with pending := added.2, drain := if shouldWake then .cancel false else .receive }
  | .cancel closed => some { s.cancelIfActive with drain := .notify closed }
  | .notify closed => some { s with wake := true, drain := if closed then .done else .receive }

/-- An operation has completed, and the watcher has not failed. -/
def complete (operation : WatchOperation) (output : WatchOutput) (now : Nat) : Option WatchLoop :=
  match operation, output with
  | .lock plan, .locked (.ok true) => some { s with driver := .set plan }
  | .lock _, .locked (.ok false) => some { s with driver := .stopped }
  | .lock _, .locked (.error message) => some { s with driver := .failed message }
  | .sleep structural rescan, .slept => some { s with driver := .check (.recover structural rescan) }
  | .recover structural rescan, .recovered answers =>
    let recovered := recoverStructuralWatchState answers s.packagePaths
    let s := { s with packagePaths := recovered.1 }
    match recovered.2 with
    | .Complete => some { s with retry := s.retry.reset, driver := .drain structural rescan }
    | .Retry requiresRescan => some
      { s with
        retry := (s.retry.recordFailure now).2
        driver := .markStructural (rescan || requiresRescan) }
    | .Fatal message => some
      { s with driver := .failed ("filesystem watcher recovery stopped: " ++ message) }
  | _, _ => none

/-- `check_watcher_failure`, and where the driver goes on if it finds none. -/
def checkWatcherFailure (go : WatchLoop → Option WatchLoop) : Option WatchLoop :=
  match s.pending.takeWatcherFailure with
  | (some message, pending) => some
    { s with pending := pending, driver := .failed ("filesystem watcher stopped: " ++ message) }
  | (none, pending) => go { s with pending := pending }

def driveStep (now : Nat) : Option WatchLoop :=
  match s.driver with
  | .check operation => s.checkWatcherFailure fun s => some { s with driver := .awaiting operation }
  | .set plan => some
    { s with active := some s.tokens, tokens := s.tokens + 1, driver := .caughtUp plan s.tokens }
  | .caughtUp plan token =>
    if s.pending.hasChanges then some { s with driver := .clear plan }
    else some { s with driver := .running plan token }
  | .clear .initial => some { s with active := none, driver := .markRescan }
  | .clear (.iteration changes) => some { s with active := none, driver := .requeue changes }
  | .requeue changes => some
    { s with
      pending := (s.pending.add changes.changed).2
      driver := if changes.structural then .markStructural changes.rescan
        else if changes.rescan then .markRescan else .hasChanges }
  | .markStructural rescan => some
    { s with
      pending := s.pending.markStructural.2
      driver := if rescan then .markRescan else .hasChanges }
  | .markRescan => some { s with pending := s.pending.markRescan.2, driver := .hasChanges }
  | .finished .finished => some { s with active := none, driver := .hasChanges }
  | .finished (.error message) => some { s with active := none, driver := .failed message }
  | .hasChanges => some { s with driver := if s.pending.hasChanges then .checkFailure else .parked }
  | .checkFailure => s.checkWatcherFailure fun s => some { s with driver := .takeRescan }
  | .takeRescan =>
    let rescan := s.pending.takeRescan
    some { s with pending := rescan.2, driver := .takeStructural rescan.1 }
  | .takeStructural rescan =>
    let structural := s.pending.takeStructural
    some { s with
      pending := structural.2
      driver := if structural.1 || rescan then
          if s.retry.remainingDelay now = 0 then .check (.recover structural.1 rescan)
          else .check (.sleep structural.1 rescan)
        else .drain structural.1 rescan }
  | .drain structural rescan =>
    let drained := s.pending.drainNonEmpty
    let changed := match drained.1 with
      | some changed => some changed
      | none => if structural || rescan then some s.packagePaths else none
    some { s with
      pending := drained.2
      driver := match changed with
        | none => .hasChanges
        | some changed =>
          if rescan then .check (.lock (.iteration ⟨changed, structural, rescan, none⟩))
          else .judge changed structural }
  | .awaiting _ | .running _ _ | .stopping | .parked | .judge _ _ | .stopped | .failed _ => none

def step : LoopLabel → Option WatchLoop
  | .receive batch =>
    match s.drain with
    | .receive => some { s with drain := match batch.failure with
      | some failure => .markFailed failure false
      | none => .markStructural batch }
    | _ => none
  | .close =>
    match s.drain with
    | .receive => some { s with drain := .markFailed "event channel closed unexpectedly" true }
    | _ => none
  | .drain => s.drainStep
  | .drive now => s.driveStep now
  | .wake =>
    if s.wake then
      match s.driver with
      | .parked => some { s with wake := false, driver := .hasChanges }
      | .awaiting operation => some { s with wake := false, driver := .check operation }
      | _ => none
    else none
  | .complete output now =>
    match s.driver with
    | .awaiting operation => s.checkWatcherFailure fun s => s.complete operation output now
    | _ => none
  | .judge affected expanded =>
    match s.driver with
    | .judge changed structural => some
      { s with driver := if affected = ∅ then .hasChanges
          else .check (.lock (.iteration ⟨changed, structural, false, some expanded⟩)) }
    | _ => none
  | .finish result =>
    match s.driver with
    | .running _ _ => some { s with driver := .finished result }
    | .stopping => some { s with active := none, driver := match result with
      | .finished => .stopped
      | .error message => .failed message }
    | _ => none
  | .shutdown =>
    match s.driver with
    | .parked | .awaiting _ => some { s with driver := .stopped }
    | .running _ token => some { s with cancelled := token :: s.cancelled, driver := .stopping }
    | _ => none

end WatchLoop

/-- The watch loop of a session with these packages. -/
def watchLoop (packagePaths : Finset Path) : System WatchLoop LoopLabel where
  init s := s = ⟨.empty, false, none, 0, [], .default, packagePaths, .receive, .check (.lock .initial)⟩
  step := WatchLoop.step

end Luchta.Impl
