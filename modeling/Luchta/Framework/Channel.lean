import Mathlib.Data.List.Basic

/-!
# Bounded channels

A channel holds at most `capacity` values, in the order in which they were sent. Sending without
waiting fails if the channel is full or its receiver is gone.
-/

namespace Luchta.Framework

structure Channel (α : Type*) where
  capacity : Nat
  queue : List α
  /-- The receiver is gone. -/
  closed : Bool

inductive TrySend
  | sent
  | full
  | closed
  deriving DecidableEq

namespace Channel

variable {α : Type*}

def empty (capacity : Nat) : Channel α := ⟨capacity, [], false⟩

def push (c : Channel α) (a : α) : Channel α := { c with queue := c.queue ++ [a] }

def trySend (c : Channel α) (a : α) : Channel α × TrySend :=
  if c.closed then (c, .closed)
  else if c.queue.length < c.capacity then (c.push a, .sent)
  else (c, .full)

def recv (c : Channel α) : Option (α × Channel α) :=
  match c.queue with
  | [] => none
  | a :: queue => some (a, { c with queue := queue })

def close (c : Channel α) : Channel α := { c with closed := true }

variable {c c' : Channel α} {a b : α}

/-- A value that was sent is in the channel, and nothing else has changed. -/
theorem trySend_sent (h : c.trySend a = (c', .sent)) : c' = c.push a := by
  unfold trySend at h
  split at h
  · cases h
  · split at h
    · exact (congrArg Prod.fst h).symm
    · cases h

theorem trySend_full (h : c.trySend a = (c', .full)) : c' = c := by
  unfold trySend at h
  split at h
  · cases h
  · split at h
    · cases h
    · exact (congrArg Prod.fst h).symm

theorem trySend_closed (h : c.trySend a = (c', .closed)) : c' = c ∧ c.closed = true := by
  unfold trySend at h
  split at h
  · rename_i hclosed
    exact ⟨(congrArg Prod.fst h).symm, hclosed⟩
  · split at h
    · cases h
    · cases h

theorem recv_eq_some (h : c.recv = some (a, c')) :
    c.queue = a :: c'.queue ∧ c'.closed = c.closed := by
  unfold recv at h
  split at h
  · contradiction
  · rename_i hqueue
    cases h
    exact ⟨hqueue, rfl⟩

end Channel

end Luchta.Framework
