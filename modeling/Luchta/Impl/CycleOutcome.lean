import Luchta.Impl.RunCycle

/-!
# The outcome of a cycle

What `run_cycle` returns, and what `luchta run` makes of it. The result of the dispatch loop is kept until
the walker has stopped. Whether the cycle was interrupted is looked at before the walker is waited for,
whether a task has failed after that.

* `ReportedCycle.step`: a cycle with what is remembered for its report.
* `finalizeAndReport`, `runTasks`: the result.

Left out: what is printed.
-/

namespace Luchta.Impl

open Luchta.Framework

/-- Why `dispatch_loop` has failed: a shutdown signal, the failure to listen for one, or a decision. -/
inductive DispatchError
  | interrupted
  | listen
  | decision
  deriving DecidableEq

inductive CycleError
  | dispatch (error : DispatchError)
  | TasksFailed
  deriving DecidableEq

inductive CycleOutcome
  | Success
  | Failed
  | Cancelled
  deriving DecidableEq

def computeCycleOutcome (wasCancelled wasInterrupted anyFailed : Bool) : CycleOutcome :=
  if wasCancelled then .Cancelled
  else if wasInterrupted || anyFailed then .Failed
  else .Success

/-- A failure of the loop comes before the failure of tasks. -/
def reportRunOutcome (runResult : Except DispatchError Unit) (anyFailed : Bool) :
    Except CycleError Unit :=
  match runResult with
  | .error error => .error (.dispatch error)
  | .ok () => if anyFailed then .error .TasksFailed else .ok ()

structure ReportedCycle where
  cycle : RunCycle
  runResult : Except DispatchError Unit
  wasInterrupted : Bool

namespace ReportedCycle

def init (c : RunCycle) : ReportedCycle := ⟨c, .ok (), false⟩

/-- The result of the dispatch loop, where it has failed with this step. -/
def dispatchError (c' : RunCycle) : CycleLabel → Option DispatchError
  | .signal ok => some (if ok then .interrupted else .listen)
  | .handle _ _ => if c'.phase = .ended then some .decision else none
  | _ => none

def step (rs : RandomState) (t : CycleTasks) (r : ReportedCycle) (l : CycleLabel) : Option ReportedCycle :=
  (r.cycle.step rs t l).map fun c =>
    { cycle := c
      runResult := (dispatchError c l).elim r.runResult .error
      wasInterrupted :=
        match l with
        | .finalize => r.cycle.interrupted
        | _ => r.wasInterrupted }

/-- The failure of tasks is in the outcome; only another error is passed on. -/
def finalizeAndReport (r : ReportedCycle) : Except CycleError (CycleOutcome × Bool) :=
  let outcome := computeCycleOutcome r.cycle.wasCancelled r.wasInterrupted r.cycle.anyFailed
  match reportRunOutcome r.runResult r.cycle.anyFailed with
  | .error error => if r.cycle.anyFailed then .ok (outcome, r.wasInterrupted) else .error error
  | .ok () => .ok (outcome, r.wasInterrupted)

/-- What `run_tasks` makes of the result of its cycle. -/
def runTasks (r : ReportedCycle) : Except CycleError Unit :=
  match r.finalizeAndReport with
  | .error error => .error error
  | .ok (outcome, _) => if outcome = .Failed then .error .TasksFailed else .ok ()

end ReportedCycle

def reportedSystem (ts : Toposort TaskNode) (rs : RandomState) (g : TaskGraph) (t : CycleTasks) :
    System ReportedCycle CycleLabel where
  init r := ∃ c, (cycleSystem ts rs g t).init c ∧ r = .init c
  step := ReportedCycle.step rs t

end Luchta.Impl
