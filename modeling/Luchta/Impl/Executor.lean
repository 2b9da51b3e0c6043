import Luchta.Framework.Semaphore
import Luchta.Framework.System
import Mathlib.Data.UInt

/-!
# The weighted executor

Tasks run side by side as long as their weights fit. Every run asks the executor's semaphore for as many
permits as its task weighs, and holds them until it is over, however it ends: with the status of its
process, with the answer of its worker, or with an error.

* `effectiveWeight`: a task that is too heavy occupies the whole executor.
* `executorSystem`: any number of runs on one executor, in any order.

What a run does while it holds its permits is left out.
-/

namespace Luchta.Impl

open Luchta.Framework

structure WeightedExecutor where
  maxWeight : UInt32
  semaphore : Semaphore Nat
  /-- The runs that have asked for their permits, in that order. -/
  arrived : List Nat
  /-- The runs that have been given their permits, in that order. -/
  started : List Nat

inductive ExecutorLabel
  /-- `run` is called. -/
  | run (i : Nat)
  /-- The permits of a run are dropped. -/
  | done (i : Nat)

namespace WeightedExecutor

def new (maxWeight : UInt32) : WeightedExecutor := ⟨maxWeight, .new maxWeight.toNat, [], []⟩

def effectiveWeight (maxWeight weight : UInt32) : UInt32 := min weight maxWeight

/-- The permits of a run whose task weighs `weight`. -/
def permitsOf (e : WeightedExecutor) (weight : UInt32) : Nat := (effectiveWeight e.maxWeight weight).toNat

def step (weight : Nat → UInt32) (e : WeightedExecutor) : ExecutorLabel → Option WeightedExecutor
  | .run i =>
    if i ∈ e.arrived then none
    else some { e with
      semaphore := e.semaphore.acquire i (e.permitsOf (weight i))
      arrived := e.arrived ++ [i]
      started := e.started ++ if e.permitsOf (weight i) ≤ e.semaphore.permits then [i] else [] }
  | .done i =>
    if (i, e.permitsOf (weight i)) ∈ e.semaphore.held then
      some { e with
        semaphore := e.semaphore.release i (e.permitsOf (weight i))
        started := e.started ++
          (Semaphore.assign (e.permitsOf (weight i)) e.semaphore.queue).1.map Prod.fst }
    else none

end WeightedExecutor

/-- Every run of an executor, for tasks of any weights. -/
def executorSystem (maxWeight : UInt32) (weight : Nat → UInt32) : System WeightedExecutor ExecutorLabel where
  init e := e = .new maxWeight
  step := WeightedExecutor.step weight

end Luchta.Impl
