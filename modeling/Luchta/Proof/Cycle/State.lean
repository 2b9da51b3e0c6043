import Luchta.Impl.RunCycle
import Luchta.Proof.Walker.Driver

/-!
# The senders of a cycle

Where the completion senders of the emitted tasks are, in every reachable state of a cycle.

* `Follows`: a step that the walker does not see until it looks at the senders.
* `Moves`: a step that moves the sender of one task on.
* `CycleInv.step`: what every step keeps.
* `CycleInv.of_reachable`: every sender is gone, or the walker still waits for it.
-/

namespace Luchta.Proof.Cycle

open Luchta.Framework Luchta.Impl Luchta.Spec
open Luchta.Proof.Walker (StateInv toEmit sendingNode mem_takeReadyNodes takeReadyNodes_nodup
  setRunning_inv setRunning_labels settle_inv fromGraph_inv)

variable {g : TaskGraph} {rs : RandomState} {t : CycleTasks} {c c' : RunCycle} {i : Nat}

abbrev labels (c : RunCycle) : Nat → Option NodeState := fun i => c.walker.states.lookup i

/-- The walker's part: a task has been emitted once its sender is somewhere, and the walker waits for
it until it is settled. Where the receiver of its channel is dropped, it may leave tasks behind. -/
structure WalkInv (g : TaskGraph) (c : RunCycle) : Prop where
  state : StateInv g c.walker
  toEmit_nodup : (toEmit c.walking).Nodup
  toEmit_ready : ∀ {i}, i ∈ toEmit c.walking → Ready g.graph.Edge (labels c) i
  sending : ∀ {i}, sendingNode c.walking = some i →
    labels c i = some .Running ∧ c.sender i = none ∧ i ∉ c.joinSet
  joinSet_nodup : c.joinSet.Nodup
  joined : ∀ {i}, i ∈ c.joinSet → labels c i = some .Running ∧ c.sender i ≠ none
  owner : ∀ {i place}, c.sender i = some place → (∃ b, place = .gone b) ∨ i ∈ c.joinSet
  pending : ∀ {i}, labels c i = some .Pending → c.sender i = none
  stopped : c.walking = .stopped → c.joinSet = []
  ready : c.receiver = true → ∀ {i}, Ready g.graph.Edge (labels c) i → i ∈ toEmit c.walking
  running : c.receiver = true → ∀ {i}, labels c i = some .Running →
    i ∈ c.joinSet ∨ sendingNode c.walking = some i

/-- The dispatcher's part: what the channels and the loop hold. -/
structure PlaceInv (c : RunCycle) : Prop where
  ready_iff : ∀ {i}, c.sender i = some .ready ↔ i ∈ c.ready
  ready_nodup : c.ready.Nodup
  receiver : c.receiver = false → c.ready = []
  paused : ∀ {i}, c.phase = .paused i → c.sender i = some .held
  isOver : c.phase.isOver → ∀ i, (∀ decision, c.sender i ≠ some (.decided decision)) ∧ c.sender i ≠ some .held
  returned : c.phase = .returned → c.walking = .stopped ∧ c.receiver = false

structure CycleInv (g : TaskGraph) (c : RunCycle) : Prop extends WalkInv g c, PlaceInv c

/-! ## Steps that leave the walker alone -/

/-- The walker's own state is left alone; no sender appears, and none comes back. -/
structure Follows (c c' : RunCycle) : Prop where
  walker : c'.walker = c.walker
  walking : c'.walking = c.walking
  joinSet : c'.joinSet = c.joinSet
  receiver : c'.receiver = true → c.receiver = true
  none_iff : ∀ i, c'.sender i = none ↔ c.sender i = none
  gone : ∀ i b, c.sender i = some (.gone b) → c'.sender i = some (.gone b)

theorem Follows.labels_eq (hf : Follows c c') : labels c' = labels c := by
  unfold labels
  rw [hf.walker]

theorem WalkInv.follow (h : WalkInv g c) (hf : Follows c c') : WalkInv g c' where
  state := hf.walker ▸ h.state
  toEmit_nodup := hf.walking ▸ h.toEmit_nodup
  toEmit_ready hi := by
    rw [hf.labels_eq]
    exact h.toEmit_ready (hf.walking ▸ hi)
  sending {i} hi := by
    rw [hf.labels_eq, hf.none_iff, hf.joinSet]
    exact h.sending (hf.walking ▸ hi)
  joinSet_nodup := hf.joinSet ▸ h.joinSet_nodup
  joined {i} hi := by
    rw [hf.labels_eq, ne_eq, hf.none_iff]
    exact h.joined (hf.joinSet ▸ hi)
  owner {i place} hi := by
    rw [hf.joinSet]
    cases hold : c.sender i with
    | none =>
      rw [(hf.none_iff i).2 hold] at hi
      cases hi
    | some old =>
      refine (h.owner hold).imp_left ?_
      rintro ⟨b, rfl⟩
      exact ⟨b, Option.some.inj (hi.symm.trans (hf.gone i b hold))⟩
  pending {i} hi := (hf.none_iff i).2 (h.pending (hf.labels_eq ▸ hi))
  stopped hi := hf.joinSet.trans (h.stopped (hf.walking.symm.trans hi))
  ready hr {i} hi := hf.walking ▸ h.ready (hf.receiver hr) (hf.labels_eq ▸ hi)
  running hr {i} hi := by
    rw [hf.joinSet, hf.walking]
    exact h.running (hf.receiver hr) (hf.labels_eq ▸ hi)

/-- The sender of `i` moves on. -/
structure Moves (i : Nat) (place : SenderPlace) (c c' : RunCycle) : Prop where
  walker : c'.walker = c.walker
  walking : c'.walking = c.walking
  joinSet : c'.joinSet = c.joinSet
  ready : c'.ready = c.ready.erase i
  receiver : c'.receiver = c.receiver
  sender : c'.sender = Function.update c.sender i (some place)
  phase : c'.phase = c.phase ∨ c'.phase = .select ∨ c'.phase = .paused i ∧ place = .held
  wasCancelled : c'.wasCancelled = c.wasCancelled

namespace Moves

variable {place old : SenderPlace}

theorem isOver (hm : Moves i place c c') (ho : c'.phase.isOver) : c.phase.isOver := by
  rcases hm.phase with hp | hp | ⟨hp, -⟩
  · exact hp ▸ ho
  · simp [hp, CyclePhase.isOver] at ho
  · simp [hp, CyclePhase.isOver] at ho

theorem follows (hm : Moves i place c c') (hold : c.sender i = some old) (hgone : ∀ b, old ≠ .gone b) :
    Follows c c' where
  walker := hm.walker
  walking := hm.walking
  joinSet := hm.joinSet
  receiver hr := hm.receiver ▸ hr
  none_iff j := by
    rw [hm.sender, Function.update_apply]
    split
    · simp [*]
    · rfl
  gone j b hj := by
    rw [hm.sender, Function.update_of_ne, hj]
    rintro rfl
    exact hgone b (Option.some.inj (hold.symm.trans hj))

theorem places (hm : Moves i place c c') (h : PlaceInv c) (hready : place ≠ .ready)
    (hold : c.sender i = some old) (hheld : old = .held → c'.phase = .select)
    (hover : c'.phase.isOver → ∃ b, place = .gone b) : PlaceInv c' where
  ready_iff {j} := by
    rw [hm.sender, hm.ready, h.ready_nodup.mem_erase_iff, ← h.ready_iff, Function.update_apply]
    split
    · simp [*]
    · simp [*]
  ready_nodup := hm.ready ▸ h.ready_nodup.erase i
  receiver hr := by
    rw [hm.ready, h.receiver (hm.receiver ▸ hr)]
    rfl
  paused {j} hj := by
    rcases hm.phase with hp | hp | ⟨hp, rfl⟩
    · rw [hm.sender, Function.update_of_ne, h.paused (hp ▸ hj)]
      rintro rfl
      have hsame := Option.some.inj (hold.symm.trans (h.paused (hp ▸ hj)))
      cases (hheld hsame).symm.trans hj
    · cases hp.symm.trans hj
    · obtain rfl := CyclePhase.paused.inj (hp.symm.trans hj)
      rw [hm.sender, Function.update_self]
  isOver ho j := by
    obtain ⟨b, rfl⟩ := hover ho
    rw [hm.sender, Function.update_apply]
    split
    · simp
    · exact h.isOver (hm.isOver ho) j
  returned hr := by
    rcases hm.phase with hp | hp | ⟨hp, -⟩
    · rw [hm.walking, hm.receiver]
      exact h.returned (hp.symm.trans hr)
    · cases hp.symm.trans hr
    · cases hp.symm.trans hr

theorem inv (hm : Moves i place c c') (h : CycleInv g c) (hready : place ≠ .ready)
    (hold : c.sender i = some old) (hgone : ∀ b, old ≠ .gone b)
    (hheld : old = .held → c'.phase = .select) (hover : c'.phase.isOver → ∃ b, place = .gone b) :
    CycleInv g c' where
  toWalkInv := h.toWalkInv.follow (hm.follows hold hgone)
  toPlaceInv := hm.places h.toPlaceInv hready hold hheld hover

end Moves

/-- The message of `i` is taken from its channel. -/
structure Takes (i : Nat) (c c' : RunCycle) : Prop where
  walker : c'.walker = c.walker
  walking : c'.walking = c.walking
  joinSet : c'.joinSet = c.joinSet
  ready : c'.ready = c.ready.erase i
  receiver : c'.receiver = c.receiver
  sender : c'.sender = c.sender
  phase : c'.phase = c.phase
  wasCancelled : c'.wasCancelled = c.wasCancelled

namespace Takes

variable {place : SenderPlace}

/-- No message is taken for a task whose sender is elsewhere. -/
theorem refl {old : SenderPlace} (h : PlaceInv c) (hi : c.sender i = some old) (hold : old ≠ .ready) :
    Takes i c c := by
  have hmem : i ∉ c.ready := fun hmem => hold (Option.some.inj (hi.symm.trans (h.ready_iff.2 hmem)))
  exact ⟨rfl, rfl, rfl, (List.erase_of_not_mem hmem).symm, rfl, rfl, rfl, rfl⟩

theorem triggerFastStop (ht : Takes i c c') : Takes i c (c'.triggerFastStop t) := by
  unfold RunCycle.triggerFastStop
  split
  · exact ht
  · exact { ht with }

theorem move (ht : Takes i c c') : Moves i place c (c'.move i place) :=
  { ht with
    sender := by rw [RunCycle.move, ht.sender]
    phase := .inl ht.phase }

theorem dispatchRun (ht : Takes i c c') (paused : Bool) :
    ∃ place, place ≠ .ready ∧ Moves i place c (c'.dispatchRun i paused) := by
  unfold RunCycle.dispatchRun
  split
  · have hm : Moves i .held c (c'.move i .held) := ht.move
    exact ⟨.held, by simp, { hm with phase := .inr (.inr ⟨rfl, rfl⟩) }⟩
  · exact ⟨.running, by simp, ht.move⟩

theorem dispatchReadyTaskAsync (ht : Takes i c c') (paused : Bool) :
    ∃ place, place ≠ .ready ∧ Moves i place c (c'.dispatchReadyTaskAsync i t paused) := by
  unfold RunCycle.dispatchReadyTaskAsync
  split
  · exact ⟨.gone true, by simp, ht.move⟩
  split
  · exact ⟨.gone false, by simp, ht.move⟩
  split
  · exact ⟨.gone false, by simp, ht.triggerFastStop.move⟩
  split
  · exact ⟨.gone true, by simp, ht.move⟩
  split
  · exact ⟨.deciding, by simp, ht.move⟩
  · exact ht.dispatchRun paused

theorem dispatchDecisionResult (ht : Takes i c c') (restored paused : Bool) (prepared : Prepared) :
    ∃ place, place ≠ .ready ∧
      Moves i place c (c'.dispatchDecisionResult i restored paused prepared) := by
  cases prepared with
  | skip => exact ⟨.gone true, by simp, ht.move⟩
  | run sharedHit =>
    simp only [RunCycle.dispatchDecisionResult]
    split
    · exact ⟨.gone true, by simp, ht.move⟩
    · exact ht.dispatchRun paused

end Takes

/-! ## What is dropped -/

theorem dropReceiver_follows : Follows c c.dropReceiver where
  walker := rfl
  walking := rfl
  joinSet := rfl
  receiver hr := by cases hr
  none_iff i := by
    simp only [RunCycle.dropReceiver]
    split
    · simp [*]
    · rfl
  gone i b hi := by
    simp [RunCycle.dropReceiver, hi]

theorem endDispatch_follows : Follows c c.endDispatch where
  walker := rfl
  walking := rfl
  joinSet := rfl
  receiver hr := hr
  none_iff i := by
    simp only [RunCycle.endDispatch]
    split <;> simp [*]
  gone i b hi := by
    simp [RunCycle.endDispatch, hi]

theorem dropReceiver_places (h : PlaceInv c) : PlaceInv c.dropReceiver where
  ready_iff {i} := by
    simp only [RunCycle.dropReceiver, List.not_mem_nil, iff_false]
    split <;> simp [*]
  ready_nodup := .nil
  receiver _ := rfl
  paused {i} hi := by simp [RunCycle.dropReceiver, h.paused hi]
  isOver ho i := by
    obtain ⟨hdecided, hheld⟩ := h.isOver ho i
    simp only [RunCycle.dropReceiver]
    split
    · simp
    · exact ⟨hdecided, hheld⟩
  returned hr := ⟨(h.returned hr).1, rfl⟩

theorem endDispatch_places (h : PlaceInv c) : PlaceInv c.endDispatch where
  ready_iff {i} := by
    refine Iff.trans ?_ h.ready_iff
    simp only [RunCycle.endDispatch]
    split <;> simp [*]
  ready_nodup := h.ready_nodup
  receiver := h.receiver
  paused hi := by cases hi
  isOver _ i := by
    simp only [RunCycle.endDispatch]
    split
    · simp
    · simp
    · rename_i hdecided hheld
      exact ⟨fun decision => hdecided decision, hheld⟩
  returned hr := by cases hr

theorem endDispatch_inv (h : CycleInv g c) : CycleInv g c.endDispatch :=
  ⟨h.toWalkInv.follow endDispatch_follows, endDispatch_places h.toPlaceInv⟩

theorem dropReceiver_inv (h : CycleInv g c) : CycleInv g c.dropReceiver :=
  ⟨h.toWalkInv.follow dropReceiver_follows, dropReceiver_places h.toPlaceInv⟩

/-! ## The steps of the walker -/

theorem begin_inv {ready : List Nat} (h : CycleInv g c) (hwalk : c.walking = .enqueue (i :: ready)) :
    CycleInv g { c with walker := c.walker.setRunning i, walking := .sending i ready } := by
  have hready : Ready g.graph.Edge (labels c) i := h.toEmit_ready (by simp [hwalk, toEmit])
  have hnd : i ∉ ready ∧ ready.Nodup := by simpa [hwalk, toEmit] using h.toEmit_nodup
  have hlab : ∀ j, (c.walker.setRunning i).states.lookup j =
      if j = i then some .Running else labels c j := setRunning_labels hready.1
  have hne : ∀ j ∈ c.joinSet, j ≠ i := by
    rintro j hj rfl
    cases (h.joined hj).1.symm.trans hready.1
  refine { h with
    state := setRunning_inv h.state hready
    toEmit_nodup := hnd.2
    toEmit_ready := fun {j} hj => ?_
    sending := fun {j} hj => ?_
    joined := fun {j} hj => ?_
    pending := fun {j} hj => ?_
    stopped := fun hs => by cases hs
    ready := fun hr {j} hj => ?_
    running := fun hr {j} hj => ?_
    returned := fun hr => by cases hwalk.symm.trans (h.returned hr).1 }
  · have hold : Ready g.graph.Edge (labels c) j := h.toEmit_ready (by
      rw [hwalk]
      exact List.mem_cons_of_mem i hj)
    refine ⟨?_, fun k hk => ?_⟩
    · rw [labels, hlab, if_neg (by rintro rfl; exact hnd.1 hj)]
      exact hold.1
    · rw [labels, hlab, if_neg (by rintro rfl; cases hready.1.symm.trans (hold.2 k hk))]
      exact hold.2 k hk
  · obtain rfl : i = j := by simpa [sendingNode] using hj
    refine ⟨by rw [labels, hlab, if_pos rfl], h.pending hready.1, fun hmem => hne i hmem rfl⟩
  · rw [labels, hlab, if_neg (hne j hj)]
    exact h.joined hj
  · rw [labels, hlab] at hj
    split at hj
    · cases hj
    · exact h.pending hj
  · obtain ⟨hp, hdeps⟩ := hj
    rw [labels, hlab] at hp
    split at hp
    · cases hp
    have hold : Ready g.graph.Edge (labels c) j := ⟨hp, fun k hk => by
      have hs := hdeps k hk
      rw [labels, hlab] at hs
      split at hs
      · cases hs
      · exact hs⟩
    have hmem : j ∈ i :: ready := by simpa [hwalk, toEmit] using h.ready hr hold
    exact (List.mem_cons.1 hmem).resolve_left ‹_›
  · rw [labels, hlab] at hj
    split at hj
    · exact .inr (congrArg some (Eq.symm ‹j = i›))
    · refine .inl ((h.running hr hj).resolve_right ?_)
      simp [hwalk, sendingNode]

theorem refused_inv {ready : List Nat} (h : CycleInv g c) (hwalk : c.walking = .sending i ready)
    (hrecv : ¬ c.receiver = true) :
    CycleInv g { c.move i (.gone false) with walking := .waiting } := by
  obtain ⟨hrun, hnone, hjoin⟩ := h.sending (i := i) (by simp [hwalk, sendingNode])
  have hself : (c.move i (.gone false)).sender i = some (.gone false) := by simp [RunCycle.move]
  have hsender : ∀ {j}, j ≠ i → (c.move i (.gone false)).sender j = c.sender j :=
    fun hj => Function.update_of_ne hj _ _
  have hne : ∀ {j place}, c.sender j = some place → j ≠ i := by
    rintro j place hj rfl
    cases hnone.symm.trans hj
  refine { h with
    toEmit_nodup := .nil
    toEmit_ready := fun hj => absurd hj List.not_mem_nil
    sending := fun hj => by simp [sendingNode] at hj
    joined := fun {j} hj => ?_
    owner := fun {j place} hj => ?_
    pending := fun {j} hj => ?_
    stopped := fun hs => by cases hs
    ready := fun hr => absurd hr hrecv
    running := fun hr => absurd hr hrecv
    ready_iff := fun {j} => ?_
    paused := fun {j} hj => ?_
    isOver := fun ho j => ?_
    returned := fun hr => by cases hwalk.symm.trans (h.returned hr).1 }
  · have hji : j ≠ i := by rintro rfl; exact hjoin hj
    rw [hsender hji]
    exact h.joined hj
  · by_cases hji : j = i
    · subst hji
      exact .inl ⟨false, Option.some.inj (hj.symm.trans hself)⟩
    · rw [hsender hji] at hj
      exact h.owner hj
  · rw [hsender]
    · exact h.pending hj
    · rintro rfl
      cases hrun.symm.trans hj
  · by_cases hji : j = i
    · subst hji
      rw [hself]
      refine ⟨fun heq => by simp at heq, fun hmem => ?_⟩
      exact absurd rfl (hne (h.ready_iff.2 hmem))
    · rw [hsender hji]
      exact h.ready_iff
  · rw [hsender (hne (h.paused hj))]
    exact h.paused hj
  · by_cases hji : j = i
    · subst hji
      simp [hself]
    · rw [hsender hji]
      exact h.isOver ho j

theorem sent_inv {ready : List Nat} (h : CycleInv g c) (hwalk : c.walking = .sending i ready)
    (hrecv : c.receiver = true) :
    CycleInv g { c.move i .ready with
      walking := .enqueue ready
      ready := c.ready ++ [i]
      joinSet := c.joinSet ++ [i] } := by
  obtain ⟨hrun, hnone, hjoin⟩ := h.sending (i := i) (by simp [hwalk, sendingNode])
  have hself : (c.move i .ready).sender i = some .ready := by simp [RunCycle.move]
  have hsender : ∀ {j}, j ≠ i → (c.move i .ready).sender j = c.sender j :=
    fun hj => Function.update_of_ne hj _ _
  have hne : ∀ {j place}, c.sender j = some place → j ≠ i := by
    rintro j place hj rfl
    cases hnone.symm.trans hj
  have hready : i ∉ c.ready := fun hmem => hne (h.ready_iff.2 hmem) rfl
  refine { h with
    toEmit_nodup := by simpa [hwalk, toEmit] using h.toEmit_nodup
    toEmit_ready := fun {j} hj => h.toEmit_ready (by simpa [hwalk, toEmit] using hj)
    sending := fun hj => by simp [sendingNode] at hj
    joinSet_nodup := List.nodup_append_comm.1 (by simpa using ⟨hjoin, h.joinSet_nodup⟩)
    joined := fun {j} hj => ?_
    owner := fun {j place} hj => ?_
    pending := fun {j} hj => ?_
    stopped := fun hs => by cases hs
    ready := fun hr {j} hj => by simpa [hwalk, toEmit] using h.ready hrecv hj
    running := fun hr {j} hj => .inl ?_
    ready_iff := fun {j} => ?_
    ready_nodup := List.nodup_append_comm.1 (by simpa using ⟨hready, h.ready_nodup⟩)
    receiver := fun hr => by cases hrecv.symm.trans hr
    paused := fun {j} hj => ?_
    isOver := fun ho j => ?_
    returned := fun hr => by cases hwalk.symm.trans (h.returned hr).1 }
  · by_cases hji : j = i
    · subst hji
      exact ⟨hrun, by simp [hself]⟩
    · rw [hsender hji]
      exact h.joined (by simpa [hji] using hj)
  · by_cases hji : j = i
    · subst hji
      exact .inr (by simp)
    · rw [hsender hji] at hj
      exact (h.owner hj).imp_right fun hmem => List.mem_append_left _ hmem
  · rw [hsender]
    · exact h.pending hj
    · rintro rfl
      cases hrun.symm.trans hj
  · rcases h.running hrecv hj with hmem | hsend
    · exact List.mem_append_left _ hmem
    · obtain rfl : i = j := by simpa [hwalk, sendingNode] using hsend
      exact List.mem_append_right _ (List.mem_singleton.2 rfl)
  · by_cases hji : j = i
    · subst hji
      simp [hself]
    · rw [hsender hji, h.ready_iff]
      simp [hji]
  · rw [hsender (hne (h.paused hj))]
    exact h.paused hj
  · by_cases hji : j = i
    · subst hji
      simp [hself]
    · rw [hsender hji]
      exact h.isOver ho j

theorem join_inv {b : Bool} {w : WalkerState} (h : CycleInv g c) (hwalk : c.walking = .waiting)
    (hi : c.sender i = some (.gone b)) (hw : StateInv g w)
    (hself : w.states.lookup i = some (if b then .Succeeded else .Failed))
    (hother : ∀ j ≠ i, w.states.lookup j = labels c j ∨
      labels c j = some .Pending ∧ w.states.lookup j = some .Skipped) :
    CycleInv g { c with
      walker := w
      walking := .enqueue (w.takeReadyNodes rs)
      joinSet := c.joinSet.erase i } := by
  refine { h with
    state := hw
    toEmit_nodup := takeReadyNodes_nodup w
    toEmit_ready := fun {j} hj => (mem_takeReadyNodes hw).1 hj
    sending := fun hj => by simp [sendingNode] at hj
    joinSet_nodup := h.joinSet_nodup.erase i
    joined := fun {j} hj => ?_
    owner := fun {j place} hj => ?_
    pending := fun {j} hj => ?_
    stopped := fun hs => by cases hs
    ready := fun _ => (mem_takeReadyNodes hw).2
    running := fun hr {j} hj => .inl ?_
    returned := fun hr => by cases hwalk.symm.trans (h.returned hr).1 }
  · obtain ⟨hji, hmem⟩ := h.joinSet_nodup.mem_erase_iff.1 hj
    obtain ⟨hrun, hsome⟩ := h.joined hmem
    refine ⟨?_, hsome⟩
    rcases hother j hji with heq | ⟨hp, -⟩
    · exact heq.trans hrun
    · cases hp.symm.trans hrun
  · by_cases hji : j = i
    · subst hji
      exact .inl ⟨b, Option.some.inj (hj.symm.trans hi)⟩
    · exact (h.owner hj).imp_right (List.mem_erase_of_ne hji).2
  · have hji : j ≠ i := by
      rintro rfl
      rw [labels, hself] at hj
      cases b <;> simp at hj
    rcases hother j hji with heq | ⟨-, hs⟩
    · exact h.pending (heq.symm.trans hj)
    · cases hs.symm.trans hj
  · have hji : j ≠ i := by
      rintro rfl
      rw [labels, hself] at hj
      cases b <;> simp at hj
    rcases hother j hji with heq | ⟨-, hs⟩
    · rcases h.running hr (heq.symm.trans hj) with hmem | hsend
      · exact (List.mem_erase_of_ne hji).2 hmem
      · simp [hwalk, sendingNode] at hsend
    · cases hs.symm.trans hj

theorem walkStep_inv {l : CycleLabel} (h : CycleInv g c) (hstep : c.walkStep rs l = some c') :
    CycleInv g c' := by
  cases l with
  | takeNext =>
    simp only [RunCycle.walkStep] at hstep
    split at hstep
    · rename_i hwalk
      obtain rfl := Option.some.inj hstep
      exact { h with
        toEmit_nodup := .nil
        toEmit_ready := fun hj => absurd hj List.not_mem_nil
        sending := fun hj => by simp [sendingNode] at hj
        stopped := fun hs => by cases hs
        ready := fun hr {j} hj => by simpa [hwalk, toEmit] using h.ready hr hj
        running := fun hr {j} hj => by simpa [hwalk, sendingNode] using h.running hr hj
        returned := fun hr => by cases hwalk.symm.trans (h.returned hr).1 }
    · split at hstep
      · obtain rfl := Option.some.inj hstep
        exact begin_inv h ‹_›
      · cases hstep
    · cases hstep
  | send =>
    simp only [RunCycle.walkStep] at hstep
    split at hstep
    · split at hstep
      · obtain rfl := Option.some.inj hstep
        exact refused_inv h ‹_› ‹_›
      · split at hstep
        · obtain rfl := Option.some.inj hstep
          exact sent_inv h ‹_› (by simpa using ‹¬¬c.receiver = true›)
        · cases hstep
    · cases hstep
  | join i b =>
    simp only [RunCycle.walkStep, Option.ite_none_right_eq_some, Option.map_eq_some_iff] at hstep
    obtain ⟨⟨hwalk, -, hi, hb⟩, w, hw, rfl⟩ := hstep
    obtain ⟨w', hw', hinv, hself, hother⟩ := settle_inv h.state (h.joined hi).1 b
    obtain rfl := Option.some.inj (hw'.symm.trans hw)
    exact join_inv h hwalk hb hinv hself hother
  | stop =>
    simp only [RunCycle.walkStep, Option.ite_none_right_eq_some] at hstep
    obtain ⟨⟨hwalk, hend⟩, hstep⟩ := hstep
    obtain rfl := Option.some.inj hstep
    refine { h with
      toEmit_nodup := .nil
      toEmit_ready := fun hj => absurd hj List.not_mem_nil
      sending := fun hj => by simp [sendingNode] at hj
      stopped := fun _ => hend.elim (fun hcount => ?_) id
      ready := fun hr {j} hj => by simpa [hwalk, toEmit] using h.ready hr hj
      running := fun hr {j} hj => by simpa [hwalk, sendingNode] using h.running hr hj
      returned := fun hr => by cases hwalk.symm.trans (h.returned hr).1 }
    -- with every task settled, the walker waits for none
    refine List.eq_nil_iff_forall_not_mem.2 fun i hi => ?_
    have hrun := (h.joined hi).1
    obtain ⟨s, hs, hterm⟩ := h.state.total_le_iff.1 hcount i (h.state.lt_of_lookup hrun)
    obtain rfl := Option.some.inj (hs.symm.trans hrun)
    cases hterm
  | _ => cases hstep

/-! ## The steps of the dispatch loop, and of the rest of the cycle -/

theorem receive_takes {ready : List Nat} (hready : c.ready = i :: ready) :
    Takes i c { c with ready := ready } :=
  ⟨rfl, rfl, rfl, by simp [hready], rfl, rfl, rfl, rfl⟩

theorem dispatchStep_inv {l : CycleLabel} (h : CycleInv g c) (hstep : c.dispatchStep t l = some c') :
    CycleInv g c' := by
  cases l with
  | signal ok =>
    simp only [RunCycle.dispatchStep] at hstep
    split at hstep
    · obtain rfl := Option.some.inj hstep
      exact { endDispatch_inv h with }
    · obtain rfl := Option.some.inj hstep
      exact { endDispatch_inv h with }
    · cases hstep
  | receive paused =>
    simp only [RunCycle.dispatchStep] at hstep
    split at hstep
    · rename_i i ready hphase hready
      obtain rfl := Option.some.inj hstep
      obtain ⟨place, hplace, hm⟩ := (receive_takes hready).dispatchReadyTaskAsync (t := t) paused
      exact hm.inv h hplace (h.ready_iff.2 (by simp [hready])) (by simp) (by simp) fun ho =>
        absurd (hm.isOver ho) (by simp [hphase, CyclePhase.isOver])
    · cases hstep
  | closed =>
    simp only [RunCycle.dispatchStep, Option.ite_none_right_eq_some] at hstep
    obtain rfl := Option.some.inj hstep.2
    exact endDispatch_inv h
  | handle restored paused =>
    simp only [RunCycle.dispatchStep] at hstep
    split at hstep
    · rename_i i results hphase hresults
      split at hstep
      · obtain rfl := Option.some.inj hstep
        exact endDispatch_inv h
      · rename_i prepared hi
        obtain rfl := Option.some.inj hstep
        have ht : Takes i c { c with results := results } := { Takes.refl h.toPlaceInv hi (by simp) with }
        obtain ⟨place, hplace, hm⟩ := ht.dispatchDecisionResult restored paused prepared
        exact hm.inv h hplace hi (by simp) (by simp) fun ho =>
          absurd (hm.isOver ho) (by simp [hphase, CyclePhase.isOver])
      · cases hstep
    · cases hstep
  | resume =>
    simp only [RunCycle.dispatchStep] at hstep
    split at hstep
    · rename_i i hphase
      obtain rfl := Option.some.inj hstep
      have hi := h.paused hphase
      have ht : Takes i c c := .refl h.toPlaceInv hi (by simp)
      have hm : Moves i .running c { c.move i .running with phase := .select } :=
        { ht.move with phase := .inr (.inl rfl) }
      exact hm.inv h (by simp) hi (by simp) (fun _ => rfl) (by simp [CyclePhase.isOver])
    · cases hstep
  | cancel =>
    simp only [RunCycle.dispatchStep] at hstep
    split at hstep
    · obtain rfl := Option.some.inj hstep
      exact { dropReceiver_inv (endDispatch_inv h) with }
    · obtain rfl := Option.some.inj hstep
      exact { dropReceiver_inv (endDispatch_inv h) with }
    · cases hstep
  | _ => cases hstep

theorem windStep_inv {l : CycleLabel} (h : CycleInv g c) (hstep : c.windStep t l = some c') :
    CycleInv g c' := by
  cases l with
  | decide i decision =>
    simp only [RunCycle.windStep, Option.ite_none_right_eq_some] at hstep
    obtain ⟨hi, hstep⟩ := hstep
    have ht : Takes i c c := .refl h.toPlaceInv hi (by simp)
    split at hstep
    · obtain rfl := Option.some.inj hstep
      have hm : Moves i (.gone false) c (c.move i (.gone false)) := ht.move
      exact hm.inv h (by simp) hi (by simp) (by simp) fun _ => ⟨false, rfl⟩
    · rename_i hover
      obtain ⟨-, hstep⟩ := Option.ite_none_right_eq_some.1 hstep
      obtain rfl := Option.some.inj hstep
      have hm : Moves i (.decided decision) c
          { c.move i (.decided decision) with results := c.results ++ [i] } := { ht.move with }
      exact hm.inv h (by simp) hi (by simp) (by simp) fun ho => absurd ho hover
  | runDone i success =>
    simp only [RunCycle.windStep, Option.ite_none_right_eq_some] at hstep
    obtain ⟨hi, hstep⟩ := hstep
    have ht : Takes i c c := .refl h.toPlaceInv hi (by simp)
    have hgone : ∀ {b c'}, Moves i (.gone b) c c' → CycleInv g c' := fun {b c'} hm =>
      hm.inv h (by simp) hi (by simp) (by simp) fun _ => ⟨b, rfl⟩
    split at hstep
    · obtain rfl := Option.some.inj hstep
      exact hgone ht.move
    · obtain rfl := Option.some.inj hstep
      exact hgone ht.move
    · obtain rfl := Option.some.inj hstep
      exact hgone ht.triggerFastStop.move
  | finalize =>
    simp only [RunCycle.windStep, Option.ite_none_right_eq_some] at hstep
    obtain ⟨hphase, hstep⟩ := hstep
    obtain rfl := Option.some.inj hstep
    have hover : c.phase.isOver := by simp [hphase, CyclePhase.isOver]
    split
    · have hdrop := dropReceiver_inv h
      exact { hdrop with
        paused := fun hj => by cases hj
        isOver := fun _ => hdrop.isOver hover
        returned := fun hr => by cases hr }
    · exact { h with
        paused := fun hj => by cases hj
        isOver := fun _ => h.isOver hover
        returned := fun hr => by cases hr }
  | finish =>
    simp only [RunCycle.windStep, Option.ite_none_right_eq_some] at hstep
    obtain ⟨⟨hphase, hwalk⟩, hstep⟩ := hstep
    obtain rfl := Option.some.inj hstep
    have hdrop := dropReceiver_inv h
    exact { hdrop with
      paused := fun hj => by cases hj
      isOver := fun _ => hdrop.isOver (by simp [RunCycle.dropReceiver, hphase, CyclePhase.isOver])
      returned := fun _ => ⟨hwalk, rfl⟩ }
  | _ => cases hstep

/-- Every label is one of the walker, of the dispatch loop, or of the rest. -/
theorem step_cases (c : RunCycle) (l : CycleLabel) :
    c.step rs t l = c.walkStep rs l ∨ c.step rs t l = c.dispatchStep t l ∨
      c.step rs t l = c.windStep t l := by
  cases l <;> simp [RunCycle.step]

theorem CycleInv.step {l : CycleLabel} (h : CycleInv g c) (hstep : c.step rs t l = some c') :
    CycleInv g c' := by
  rcases step_cases c l with heq | heq | heq
  · exact walkStep_inv h (heq ▸ hstep)
  · exact dispatchStep_inv h (heq ▸ hstep)
  · exact windStep_inv h (heq ▸ hstep)

theorem init_inv {w : WalkerState} (h : StateInv g w)
    (hp : ∀ {i s}, w.states.lookup i = some s → s = .Pending) : CycleInv g (.init rs w) where
  state := h
  toEmit_nodup := takeReadyNodes_nodup w
  toEmit_ready := (mem_takeReadyNodes h).1
  sending hs := by simp [RunCycle.init, sendingNode] at hs
  joinSet_nodup := .nil
  joined hi := absurd hi List.not_mem_nil
  owner hi := by cases hi
  pending _ := rfl
  stopped hs := by cases hs
  ready _ := (mem_takeReadyNodes h).2
  running _ {_} hi := by cases hp hi
  ready_iff := by simp [RunCycle.init]
  ready_nodup := .nil
  receiver _ := rfl
  paused hi := by cases hi
  isOver ho := by simp [RunCycle.init, CyclePhase.isOver] at ho
  returned hr := by cases hr

/-- A graph with a walker is acyclic. -/
theorem acyclic_of_fromGraph {ts : Toposort TaskNode} {w : WalkerState}
    (h : WalkerState.fromGraph ts rs g = some w) : g.graph.Acyclic := by
  cases hrun : ts.run g.graph with
  | ok order => exact ts.ok_iff.1 ⟨order, hrun⟩
  | error i =>
    have herror : (g.topologicalOrder ts).toOption = none := by
      unfold TaskGraph.topologicalOrder
      split
      · rfl
      · rename_i h'
        cases hrun.symm.trans h'
    simp [WalkerState.fromGraph, herror] at h

theorem acyclic_of_reachable {ts : Toposort TaskNode}
    (h : Reachable (cycleSystem ts rs g t) c) : g.graph.Acyclic := by
  refine h.invariant (I := fun _ => g.graph.Acyclic) ?_ fun _ _ _ _ hg _ _ => hg
  rintro _ ⟨w, hw, rfl⟩
  exact acyclic_of_fromGraph hw

theorem CycleInv.of_reachable {ts : Toposort TaskNode} (h : Reachable (cycleSystem ts rs g t) c) :
    CycleInv g c := by
  refine h.invariant (I := CycleInv g) ?_ fun _ _ _ _ hinv _ hstep => hinv.step hstep
  rintro _ ⟨w, hw, rfl⟩
  obtain ⟨w', hw', hinv, hp, -⟩ := fromGraph_inv ts rs (acyclic_of_fromGraph hw)
  obtain rfl := Option.some.inj (hw'.symm.trans hw)
  exact init_inv hinv hp

end Luchta.Proof.Cycle
