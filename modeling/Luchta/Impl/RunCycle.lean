import Luchta.Impl.Walker

/-!
# A cycle, from its first ready task to its end

What `run_cycle` does around the walker. The dispatch loop takes the ready tasks from the walker's
channel, answers some of them at once, has the cache decide on others in detached tasks, and hands what
has to run to detached runners, behind memory pressure. Its end drops what it holds; then the cycle
waits for the walker, which waits for the completion signal of every task it has emitted.

* `dispatchReadyTaskAsync`, `dispatchDecisionResult`: what becomes of a message and of a decision.
* `RunCycle.step`: the walker, the loop, its cancellation, the detached tasks and the end of the cycle.

A sender is at one place at a time. The loop is always entered: the flag that is looked at before it
has just been created. Left out: what is reported, and the shared cache. Stopping the
workers of an interrupted cycle only makes its runners fail, which they may do in any case.
-/

namespace Luchta.Impl

open Luchta.Framework

/-- A prepared cache decision; a hit in the shared cache is restored later, which may fail. -/
inductive Prepared
  | skip
  | run (sharedHit : Bool)
  deriving DecidableEq

/-- Where the completion sender of a task is. -/
inductive SenderPlace
  /-- In a message of the ready channel. -/
  | ready
  /-- With the detached task that decides. -/
  | deciding
  /-- In the decision result channel; `none` where the decision has panicked. -/
  | decided (decision : Option Prepared)
  /-- With the dispatch loop, until memory pressure clears. -/
  | held
  /-- With the task's runner. -/
  | running
  /-- Sent, or dropped, which the walker takes for a failure. -/
  | gone (success : Bool)
  deriving DecidableEq

/-- What a cycle knows of the nodes of the task graph. -/
structure CycleTasks where
  tasksToRun : Nat → Bool
  invalid : Nat → Bool
  /-- A task without a command only orders others. -/
  hasCommand : Nat → Bool
  skipEnabled : Nat → Bool
  continueOnFailure : Bool
  /-- The capacity of the decision result channel. -/
  resultCapacity : Nat

inductive CyclePhase
  /-- In `dispatch_loop`, at its `select!`. -/
  | select
  /-- In `dispatch_loop`, waiting for memory pressure to clear. -/
  | paused (i : Nat)
  /-- The dispatch phase has ended. -/
  | ended
  /-- In `walker.wait()`. -/
  | waiting
  | returned
  deriving DecidableEq

/-- The dispatch phase has ended. -/
def CyclePhase.isOver : CyclePhase → Bool
  | .select | .paused _ => false
  | .ended | .waiting | .returned => true

structure RunCycle where
  walker : WalkerState
  walking : DriverPhase
  /-- Nodes whose completion the join set still waits for. -/
  joinSet : List Nat
  sender : Nat → Option SenderPlace
  ready : List Nat
  /-- The receiver of the ready channel has not been dropped. -/
  receiver : Bool
  results : List Nat
  anyFailed : Bool
  interrupted : Bool
  wasCancelled : Bool
  phase : CyclePhase

namespace RunCycle

def init (rs : RandomState) (w : WalkerState) : RunCycle where
  walker := w
  walking := .enqueue (w.takeReadyNodes rs)
  joinSet := []
  sender := fun _ => none
  ready := []
  receiver := true
  results := []
  anyFailed := false
  interrupted := false
  wasCancelled := false
  phase := .select

variable (c : RunCycle) (i : Nat)

/-- The capacity of the ready channel. -/
def bufferSize : Nat := max c.walker.nodes.entries.length 1

def move (place : SenderPlace) : RunCycle :=
  { c with sender := Function.update c.sender i (some place) }

/-- The messages of the channel are dropped with its receiver. -/
def dropReceiver : RunCycle :=
  { c with
    ready := []
    receiver := false
    sender := fun j => if c.sender j = some .ready then some (.gone false) else c.sender j }

/-- What `dispatch_loop` drops when it returns, or is dropped itself. -/
def endDispatch : RunCycle :=
  { c with
    results := []
    sender := fun j =>
      match c.sender j with
      | some (.decided _) | some .held => some (.gone false)
      | place => place
    phase := .ended }

/-- `trigger_fast_stop_on_first_failure`. -/
def triggerFastStop (t : CycleTasks) : RunCycle :=
  if c.anyFailed then c
  else { c with anyFailed := true, interrupted := c.interrupted || !t.continueOnFailure }

/-- A task that has to run waits for memory pressure to clear; `paused` is what the first check says. -/
def dispatchRun (paused : Bool) : RunCycle :=
  if paused then { c.move i .held with phase := .paused i } else c.move i .running

def dispatchReadyTaskAsync (t : CycleTasks) (paused : Bool) : RunCycle :=
  if ¬ t.tasksToRun i then c.move i (.gone true)
  else if ¬ t.continueOnFailure ∧ c.anyFailed then c.move i (.gone false)
  else if t.invalid i then (c.triggerFastStop t).move i (.gone false)
  else if ¬ t.hasCommand i then c.move i (.gone true)
  else if t.skipEnabled i then c.move i .deciding
  else c.dispatchRun i paused

/-- `restored` is whether a shared hit can be restored. -/
def dispatchDecisionResult (restored paused : Bool) : Prepared → RunCycle
  | .skip => c.move i (.gone true)
  | .run sharedHit => if sharedHit ∧ restored then c.move i (.gone true) else c.dispatchRun i paused

end RunCycle

inductive CycleLabel
  | takeNext
  /-- The walker sends a message, or finds the receiver dropped. -/
  | send
  | join (i : Nat) (success : Bool)
  | stop
  /-- A shutdown signal, or the failure to listen for one. -/
  | signal (ok : Bool)
  | receive (paused : Bool)
  /-- The ready channel is empty and its sender is dropped. -/
  | closed
  | handle (restored paused : Bool)
  /-- Memory pressure has cleared. -/
  | resume
  | cancel
  /-- A decision is made; `none` where it has panicked. -/
  | decide (i : Nat) (decision : Option Prepared)
  /-- A runner is done; `none` where it has panicked. -/
  | runDone (i : Nat) (success : Option Bool)
  | finalize
  | finish

namespace RunCycle

variable (rs : RandomState) (t : CycleTasks)

/-- `WalkerState::run`. -/
def walkStep (c : RunCycle) : CycleLabel → Option RunCycle
  | .takeNext =>
    match c.walking with
    | .enqueue [] => some { c with walking := .waiting }
    | .enqueue (i :: ready) =>
      if (c.walker.nodes.lookup i).isSome then
        some { c with walker := c.walker.setRunning i, walking := .sending i ready }
      else none
    | _ => none
  | .send =>
    match c.walking with
    | .sending i ready =>
      if ¬ c.receiver then some { c.move i (.gone false) with walking := .waiting }
      else if c.ready.length < c.bufferSize then
        some { c.move i .ready with
          walking := .enqueue ready
          ready := c.ready ++ [i]
          joinSet := c.joinSet ++ [i] }
      else none
    | _ => none
  | .join i success =>
    if c.walking = .waiting ∧ c.walker.terminalCount < c.walker.totalCount ∧
        i ∈ c.joinSet ∧ c.sender i = some (.gone success) then
      (c.walker.settle i success).map fun w => { c with
        walker := w
        walking := .enqueue (w.takeReadyNodes rs)
        joinSet := c.joinSet.erase i }
    else none
  | .stop =>
    if c.walking = .waiting ∧ (c.walker.totalCount ≤ c.walker.terminalCount ∨ c.joinSet = []) then
      some { c with walking := .stopped }
    else none
  | _ => none

/-- `run_dispatch_with_cancel` with `dispatch_loop`. -/
def dispatchStep (c : RunCycle) : CycleLabel → Option RunCycle
  | .signal ok =>
    match c.phase with
    | .select | .paused _ => some { c.endDispatch with interrupted := c.interrupted || ok }
    | _ => none
  | .receive paused =>
    match c.phase, c.ready with
    | .select, i :: ready => some ({ c with ready := ready }.dispatchReadyTaskAsync i t paused)
    | _, _ => none
  | .closed =>
    if c.phase = .select ∧ c.ready = [] ∧ c.walking = .stopped then some c.endDispatch else none
  | .handle restored paused =>
    match c.phase, c.results with
    | .select, i :: results =>
      match c.sender i with
      | some (.decided none) => some c.endDispatch
      | some (.decided (some prepared)) =>
        some ({ c with results := results }.dispatchDecisionResult i restored paused prepared)
      | _ => none
    | _, _ => none
  | .resume =>
    match c.phase with
    | .paused i => some { c.move i .running with phase := .select }
    | _ => none
  | .cancel =>
    match c.phase with
    | .select | .paused _ => some { c.endDispatch.dropReceiver with wasCancelled := true }
    | _ => none
  | _ => none

/-- The detached tasks, and the end of the cycle. -/
def windStep (c : RunCycle) : CycleLabel → Option RunCycle
  | .decide i decision =>
    if c.sender i = some .deciding then
      if c.phase.isOver then some (c.move i (.gone false))
      else if c.results.length < t.resultCapacity then
        some { c.move i (.decided decision) with results := c.results ++ [i] }
      else none
    else none
  | .runDone i success =>
    if c.sender i = some .running then
      match success with
      | none => some (c.move i (.gone false))
      | some true => some (c.move i (.gone true))
      | some false => some ((c.triggerFastStop t).move i (.gone false))
    else none
  | .finalize =>
    if c.phase = .ended then
      some { (if c.interrupted ∨ c.wasCancelled ∨ ¬ c.receiver then c.dropReceiver else c) with
        phase := .waiting }
    else none
  | .finish =>
    if c.phase = .waiting ∧ c.walking = .stopped then some { c.dropReceiver with phase := .returned }
    else none
  | _ => none

def step (c : RunCycle) (l : CycleLabel) : Option RunCycle :=
  match l with
  | .takeNext | .send | .join _ _ | .stop => c.walkStep rs l
  | .signal _ | .receive _ | .closed | .handle _ _ | .resume | .cancel => c.dispatchStep t l
  | .decide _ _ | .runDone _ _ | .finalize | .finish => c.windStep t l

end RunCycle

/-- Every cycle on a task graph. -/
def cycleSystem (ts : Toposort TaskNode) (rs : RandomState) (g : TaskGraph) (t : CycleTasks) :
    System RunCycle CycleLabel where
  init c := ∃ w, WalkerState.fromGraph ts rs g = some w ∧ c = .init rs w
  step := RunCycle.step rs t

end Luchta.Impl
