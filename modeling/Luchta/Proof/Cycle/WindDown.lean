import Luchta.Framework.Progress
import Luchta.Proof.Cycle.State

/-!
# How a cycle winds down

Once the dispatch phase has ended, nobody takes messages from the ready channel any more.

* `WindInv.step`: where its receiver is kept, the channel is empty and stays so; every step of what goes
  on brings the cycle nearer to its end.
* `returned_of_quiet`: nothing else can stop it.
* `settles_of_orderly`: in orderly runs, the cycle returns once its runners are done.
-/

namespace Luchta.Proof.Cycle

open Luchta.Framework Luchta.Impl Luchta.Spec
open Luchta.Proof.Walker (StateInv toEmit sendingNode settle_inv setRunning_labels)
open Relation (TransGen)

variable {g : TaskGraph} {rs : RandomState} {t : CycleTasks} {c c' : RunCycle} {i : Nat}

/-! ## Which cycles wind down -/

/-- The task will not succeed: the loop that would take its decision, or its sender, is gone. -/
def Doomed (c : RunCycle) (i : Nat) : Prop :=
  Lost (labels c) i ∨
    labels c i = some .Running ∧ (c.sender i = some .deciding ∨ c.sender i = some (.gone false))

/-- The ready channel is empty, and no task will be ready. -/
structure Idle (g : TaskGraph) (c : RunCycle) : Prop where
  ready : c.ready = []
  sending : sendingNode c.walking = none
  barred : ∀ i, labels c i = some .Pending → ∃ j, TransGen g.graph.Edge i j ∧ Doomed c j

/-- Where the receiver of the ready channel outlives the dispatch phase, the walker has stopped or no
task will be ready. -/
def Orderly (g : TaskGraph) (c : RunCycle) : CycleLabel → Prop
  | .finalize => c.interrupted = true ∨ c.wasCancelled = true ∨ c.receiver = false ∨
      c.walking = .stopped ∨ Idle g c
  | _ => True

/-- The walker has stopped, and every sender has been used or dropped, also those of the runners. -/
structure WoundDown (c : RunCycle) : Prop where
  stopped : c.walking = .stopped
  receiver : c.receiver = false
  ready : c.ready = []
  gone : ∀ i, c.sender i = none ∨ ∃ b, c.sender i = some (.gone b)

theorem CycleInv.woundDown (h : CycleInv g c) (hr : c.phase = .returned) : WoundDown c where
  stopped := (h.returned hr).1
  receiver := (h.returned hr).2
  ready := h.receiver (h.returned hr).2
  gone i := by
    cases hi : c.sender i with
    | none => exact .inl rfl
    | some place =>
      rcases h.owner hi with ⟨b, rfl⟩ | hmem
      · exact .inr ⟨b, rfl⟩
      · rw [h.stopped (h.returned hr).1] at hmem
        exact absurd hmem List.not_mem_nil

/-! ## How far a cycle is from its end -/

/-- How many steps a task can still take. -/
def rank (label : Option NodeState) (sender : Option SenderPlace) : Nat :=
  match label with
  | some .Pending => 6
  | some .Running =>
    match sender with
    | none | some .ready => 4
    | some (.gone _) => 2
    | some _ => 3
  | _ => 0

def walkRank : DriverPhase → Nat
  | .sending _ _ => 3
  | .enqueue _ => 2
  | .waiting => 1
  | .stopped => 0

def phaseRank : CyclePhase → Nat
  | .select | .paused _ => 3
  | .ended => 2
  | .waiting => 1
  | .returned => 0

/-- What the tasks still have to do. -/
def owed (g : TaskGraph) (c : RunCycle) : Nat :=
  ∑ i ∈ Finset.range g.graph.nodes.length, rank (labels c i) (c.sender i)

def load (g : TaskGraph) (c : RunCycle) : Nat := owed g c + walkRank c.walking + phaseRank c.phase

theorem load_lt {k : Nat} (howed : owed g c' + k ≤ owed g c)
    (hrest : walkRank c'.walking + phaseRank c'.phase < walkRank c.walking + phaseRank c.phase + k) :
    load g c' < load g c := by
  unfold load
  omega

theorem owed_le (hle : ∀ j, rank (labels c' j) (c'.sender j) ≤ rank (labels c j) (c.sender j)) :
    owed g c' ≤ owed g c := Finset.sum_le_sum fun j _ => hle j

theorem owed_lower {k : Nat} (hi : i < g.graph.nodes.length)
    (hk : rank (labels c' i) (c'.sender i) + k ≤ rank (labels c i) (c.sender i))
    (hother : ∀ j ≠ i, rank (labels c' j) (c'.sender j) ≤ rank (labels c j) (c.sender j)) :
    owed g c' + k ≤ owed g c := sum_lower (Finset.mem_range.2 hi) hk hother

theorem rank_pos {sender : Option SenderPlace} : 2 ≤ rank (some .Running) sender := by
  cases sender with
  | none => exact Nat.le.step (.step .refl)
  | some place => cases place <;> simp [rank]

/-- A label can only go on to one with fewer steps, and a settled task has none. -/
theorem rank_settled {s : NodeState} (hs : s.terminal) {sender : Option SenderPlace} :
    rank (some s) sender = 0 := by
  cases s <;> simp_all [rank, NodeState.terminal]

/-! ## The steps of the walker -/

theorem begin_lower {ready : List Nat} (h : CycleInv g c) (hwalk : c.walking = .enqueue (i :: ready)) :
    load g { c with walker := c.walker.setRunning i, walking := .sending i ready } < load g c := by
  have hp : labels c i = some .Pending := (h.toEmit_ready (by simp [hwalk, toEmit])).1
  have hlab := setRunning_labels hp
  refine load_lt (k := 2) (owed_lower (h.state.lt_of_lookup hp) ?_ fun j hj => ?_) ?_
  · simp [labels, hlab, hp, h.pending hp, rank]
  · simp [labels, hlab, hj]
  · simp only [hwalk, walkRank]
    omega

/-- A sent task is as far from its end as before, a refused one is nearer to it. -/
theorem sending_owed {ready : List Nat} {place : SenderPlace} (h : CycleInv g c)
    (hwalk : c.walking = .sending i ready) (hplace : place = .ready ∨ place = .gone false)
    (hwalker : c'.walker = c.walker) (hsender : c'.sender = Function.update c.sender i (some place)) :
    owed g c' ≤ owed g c := by
  obtain ⟨hrun, hnone, -⟩ := h.sending (i := i) (by simp [hwalk, sendingNode])
  refine owed_le fun j => ?_
  unfold labels at hrun ⊢
  rw [hwalker, hsender, Function.update_apply]
  split
  · rename_i heq
    rw [heq, hrun, hnone]
    rcases hplace with rfl | rfl <;> simp [rank]
  · exact le_rfl

theorem join_lower {b : Bool} {w : WalkerState} (h : CycleInv g c) (hwalk : c.walking = .waiting)
    (hi : i ∈ c.joinSet) (hw : c.walker.settle i b = some w) :
    load g { c with
      walker := w
      walking := .enqueue (w.takeReadyNodes rs)
      joinSet := c.joinSet.erase i } < load g c := by
  have hrun := (h.joined hi).1
  obtain ⟨w', hw', -, hself, hother⟩ := settle_inv h.state hrun b
  obtain rfl := Option.some.inj (hw'.symm.trans hw)
  refine load_lt (k := 2) (owed_lower (h.state.lt_of_lookup hrun) ?_ fun j hj => ?_) ?_
  · rw [labels, hself, rank_settled (by cases b <;> rfl), hrun]
    exact rank_pos
  · rcases hother j hj with heq | ⟨-, hs⟩
    · rw [labels, heq]
    · simp [labels, hs, rank]
  · simp only [hwalk, walkRank]
    omega

theorem walkStep_lower {l : CycleLabel} (h : CycleInv g c) (hstep : c.walkStep rs l = some c') :
    load g c' < load g c := by
  cases l with
  | takeNext =>
    simp only [RunCycle.walkStep] at hstep
    split at hstep
    · rename_i hwalk
      obtain rfl := Option.some.inj hstep
      refine load_lt (k := 0) (owed_le fun j => le_rfl) ?_
      simp [hwalk, walkRank]
    · obtain ⟨-, hstep⟩ := Option.ite_none_right_eq_some.1 hstep
      obtain rfl := Option.some.inj hstep
      exact begin_lower h ‹_›
    · cases hstep
  | send =>
    simp only [RunCycle.walkStep] at hstep
    split at hstep
    · rename_i hwalk
      split at hstep
      · obtain rfl := Option.some.inj hstep
        refine load_lt (k := 0) (sending_owed h hwalk (.inr rfl) rfl rfl) ?_
        simp [hwalk, walkRank, RunCycle.move]
      · obtain ⟨-, hstep⟩ := Option.ite_none_right_eq_some.1 hstep
        obtain rfl := Option.some.inj hstep
        refine load_lt (k := 0) (sending_owed h hwalk (.inl rfl) rfl rfl) ?_
        simp [hwalk, walkRank, RunCycle.move]
    · cases hstep
  | join i b =>
    simp only [RunCycle.walkStep, Option.ite_none_right_eq_some, Option.map_eq_some_iff] at hstep
    obtain ⟨⟨hwalk, -, hi, -⟩, w, hw, rfl⟩ := hstep
    exact join_lower h hwalk hi hw
  | stop =>
    simp only [RunCycle.walkStep, Option.ite_none_right_eq_some] at hstep
    obtain ⟨⟨hwalk, -⟩, hstep⟩ := hstep
    obtain rfl := Option.some.inj hstep
    refine load_lt (k := 0) (owed_le fun j => le_rfl) ?_
    simp [hwalk, walkRank]
  | _ => cases hstep

/-! ## The rest of the steps -/

/-- A sender that is gone leaves less to do than one that someone still has. -/
theorem gone_lower {b : Bool} {old : SenderPlace} (h : CycleInv g c) (hm : Moves i (.gone b) c c')
    (hi : c.sender i = some old) (hgone : ∀ b, old ≠ .gone b) (hphase : c'.phase = c.phase) :
    load g c' < load g c := by
  have hrun : labels c i = some .Running := by
    rcases h.owner hi with ⟨b, rfl⟩ | hmem
    · exact absurd rfl (hgone b)
    · exact (h.joined hmem).1
  have hlab : labels c' = labels c := (hm.follows hi hgone).labels_eq
  refine load_lt (k := 1) (owed_lower (h.state.lt_of_lookup hrun) ?_ fun j hj => ?_) ?_
  · rw [hlab, hm.sender, Function.update_self, hi, hrun]
    cases old <;> simp_all [rank]
  · rw [hlab, hm.sender, Function.update_of_ne hj]
  · rw [hm.walking, hphase]
    omega

/-- Messages that are dropped are as good as failed tasks. -/
theorem dropReceiver_owed : owed g c.dropReceiver ≤ owed g c := by
  refine owed_le fun j => ?_
  show rank (labels c j) (c.dropReceiver.sender j) ≤ _
  simp only [RunCycle.dropReceiver]
  split
  · rename_i hready
    rw [hready]
    rcases labels c j with _ | _ | _ | _ | _ | _ <;> simp [rank]
  · exact le_rfl

theorem windStep_lower {l : CycleLabel} (h : CycleInv g c) (hover : c.phase.isOver)
    (hstep : c.windStep t l = some c') : load g c' < load g c := by
  cases l with
  | decide i decision =>
    simp only [RunCycle.windStep, Option.ite_none_right_eq_some, hover, if_true] at hstep
    obtain ⟨hi, hstep⟩ := hstep
    obtain rfl := Option.some.inj hstep
    have ht : Takes i c c := .refl h.toPlaceInv hi (by simp)
    exact gone_lower h (b := false) ht.move hi (by simp) rfl
  | runDone i success =>
    simp only [RunCycle.windStep, Option.ite_none_right_eq_some] at hstep
    obtain ⟨hi, hstep⟩ := hstep
    have ht : Takes i c c := .refl h.toPlaceInv hi (by simp)
    split at hstep
    · obtain rfl := Option.some.inj hstep
      exact gone_lower h (b := false) ht.move hi (by simp) rfl
    · obtain rfl := Option.some.inj hstep
      exact gone_lower h (b := true) ht.move hi (by simp) rfl
    · obtain rfl := Option.some.inj hstep
      have ht' : Takes i c (c.triggerFastStop t) := ht.triggerFastStop
      exact gone_lower h (b := false) ht'.move hi (by simp) ht'.phase
  | finalize =>
    simp only [RunCycle.windStep, Option.ite_none_right_eq_some] at hstep
    obtain ⟨hphase, hstep⟩ := hstep
    obtain rfl := Option.some.inj hstep
    split
    · refine load_lt (k := 0) (dropReceiver_owed (c := c)) ?_
      simp [hphase, phaseRank, RunCycle.dropReceiver]
    · refine load_lt (k := 0) (owed_le fun j => le_rfl) ?_
      simp [hphase, phaseRank]
  | finish =>
    simp only [RunCycle.windStep, Option.ite_none_right_eq_some] at hstep
    obtain ⟨⟨hphase, -⟩, hstep⟩ := hstep
    obtain rfl := Option.some.inj hstep
    refine load_lt (k := 0) (dropReceiver_owed (c := c)) ?_
    simp [hphase, phaseRank, RunCycle.dropReceiver]
  | _ => cases hstep

theorem dispatchStep_over {l : CycleLabel} (hover : c.phase.isOver) : c.dispatchStep t l = none := by
  cases hphase : c.phase with
  | select | paused _ => simp [hphase, CyclePhase.isOver] at hover
  | ended | waiting | returned => cases l <;> simp [RunCycle.dispatchStep, hphase]

/-! ## No task becomes ready -/

/-- What is not doomed yet may still be, and what is doomed stays so. -/
theorem Idle.of_doomed (h : Idle g c) (hready : c'.ready = []) (hsending : sendingNode c'.walking = none)
    (hpending : ∀ j, labels c' j = some .Pending → labels c j = some .Pending)
    (hdoomed : ∀ j, Doomed c j → Doomed c' j) : Idle g c' where
  ready := hready
  sending := hsending
  barred j hj := by
    obtain ⟨k, hk, hd⟩ := h.barred j (hpending j hj)
    exact ⟨k, hk, hdoomed k hd⟩

theorem Doomed.not_succeeded (h : Doomed c i) : labels c i ≠ some .Succeeded := by
  rcases h with (h | h) | ⟨h, -⟩ <;> simp [h]

theorem Idle.not_ready (h : Idle g c) (hinv : StateInv g c.walker) : ¬ Ready g.graph.Edge (labels c) i :=
  fun ⟨hp, hdeps⟩ => by
    obtain ⟨j, hj, hd⟩ := h.barred i hp
    exact hd.not_succeeded (hinv.consistent.succeeded_below hdeps hj)

theorem walkStep_idle {l : CycleLabel} (h : CycleInv g c) (hidle : Idle g c)
    (hstep : c.walkStep rs l = some c') : Idle g c' := by
  cases l with
  | takeNext =>
    simp only [RunCycle.walkStep] at hstep
    split at hstep
    · obtain rfl := Option.some.inj hstep
      exact hidle.of_doomed hidle.ready rfl (fun _ => id) (fun _ => id)
    · rename_i i ready hwalk
      exact absurd (h.toEmit_ready (by simp [hwalk, toEmit])) (hidle.not_ready (i := i) h.state)
    · cases hstep
  | send =>
    simp only [RunCycle.walkStep] at hstep
    split at hstep
    · rename_i hwalk
      cases hidle.sending.symm.trans (congrArg sendingNode hwalk)
    · cases hstep
  | join i b =>
    simp only [RunCycle.walkStep, Option.ite_none_right_eq_some, Option.map_eq_some_iff] at hstep
    obtain ⟨⟨-, -, hi, hb⟩, w, hw, rfl⟩ := hstep
    have hrun := (h.joined hi).1
    obtain ⟨w', hw', -, hself, hother⟩ := settle_inv h.state hrun b
    obtain rfl := Option.some.inj (hw'.symm.trans hw)
    refine hidle.of_doomed hidle.ready rfl (fun j hj => ?_) (fun j hj => ?_)
    · have hji : j ≠ i := by
        rintro rfl
        rw [labels, hself] at hj
        cases b <;> simp at hj
      rcases hother j hji with heq | ⟨hp, -⟩
      · exact heq.symm.trans hj
      · exact hp
    · by_cases hji : j = i
      · subst hji
        refine .inl (.inl ?_)
        rcases hj with (hl | hl) | ⟨-, hs | hs⟩
        · cases hl.symm.trans hrun
        · cases hl.symm.trans hrun
        · cases hs.symm.trans hb
        · cases hs.symm.trans hb
          exact hself
      · rcases hother j hji with heq | ⟨hp, -⟩
        · unfold Doomed Lost labels
          rw [heq]
          exact hj
        · exfalso
          rcases hj with (hl | hl) | ⟨hl, -⟩ <;> cases hl.symm.trans hp
  | stop =>
    simp only [RunCycle.walkStep, Option.ite_none_right_eq_some] at hstep
    obtain rfl := Option.some.inj hstep.2
    exact hidle.of_doomed hidle.ready rfl (fun _ => id) (fun _ => id)
  | _ => cases hstep

theorem moves_idle {b : Bool} {old : SenderPlace} (hidle : Idle g c) (hm : Moves i (.gone b) c c')
    (hi : c.sender i = some old) (hgone : ∀ b, old ≠ .gone b) (hb : old = .deciding → b = false) :
    Idle g c' := by
  have hlab : labels c' = labels c := (hm.follows hi hgone).labels_eq
  refine hidle.of_doomed (by rw [hm.ready, hidle.ready]; rfl) (hm.walking ▸ hidle.sending)
    (fun j hj => hlab ▸ hj) fun j hj => ?_
  unfold Doomed at hj ⊢
  rw [hlab, hm.sender, Function.update_apply]
  split
  · rename_i heq
    subst heq
    refine hj.imp_right fun ⟨hrun, hs⟩ => ⟨hrun, .inr ?_⟩
    rcases hs with hs | hs
    · rw [hb (Option.some.inj (hi.symm.trans hs))]
    · exact absurd (Option.some.inj (hi.symm.trans hs)) (hgone false)
  · exact hj

/-- Where the cycle waits with the receiver of the ready channel, no message will get there. -/
structure WindInv (g : TaskGraph) (c : RunCycle) : Prop extends CycleInv g c where
  idle : c.phase = .waiting → c.receiver = true → c.walking = .stopped ∨ Idle g c

/-- What the walker leaves to the others; once it has stopped it does nothing. -/
theorem walkStep_frame {l : CycleLabel} (hstep : c.walkStep rs l = some c') :
    c'.phase = c.phase ∧ c'.receiver = c.receiver ∧ c.walking ≠ .stopped := by
  cases l with
  | takeNext =>
    simp only [RunCycle.walkStep] at hstep
    split at hstep
    · obtain rfl := Option.some.inj hstep
      exact ⟨rfl, rfl, by simp [*]⟩
    · obtain ⟨-, hstep⟩ := Option.ite_none_right_eq_some.1 hstep
      obtain rfl := Option.some.inj hstep
      exact ⟨rfl, rfl, by simp [*]⟩
    · cases hstep
  | send =>
    simp only [RunCycle.walkStep] at hstep
    split at hstep
    · split at hstep
      · obtain rfl := Option.some.inj hstep
        exact ⟨rfl, rfl, by simp [*]⟩
      · obtain ⟨-, hstep⟩ := Option.ite_none_right_eq_some.1 hstep
        obtain rfl := Option.some.inj hstep
        exact ⟨rfl, rfl, by simp [*]⟩
    · cases hstep
  | join i b =>
    simp only [RunCycle.walkStep, Option.ite_none_right_eq_some, Option.map_eq_some_iff] at hstep
    obtain ⟨⟨hwalk, -⟩, w, -, rfl⟩ := hstep
    exact ⟨rfl, rfl, by simp [hwalk]⟩
  | stop =>
    simp only [RunCycle.walkStep, Option.ite_none_right_eq_some] at hstep
    obtain ⟨⟨hwalk, -⟩, hstep⟩ := hstep
    obtain rfl := Option.some.inj hstep
    exact ⟨rfl, rfl, by simp [hwalk]⟩
  | _ => cases hstep

theorem WindInv.moves {b : Bool} {old : SenderPlace} (h : WindInv g c) (hinv : CycleInv g c')
    (hm : Moves i (.gone b) c c') (hi : c.sender i = some old) (hgone : ∀ b, old ≠ .gone b)
    (hb : old = .deciding → b = false) (hphase : c'.phase = c.phase) : WindInv g c' where
  toCycleInv := hinv
  idle hp hr := by
    rw [hm.walking]
    exact (h.idle (hphase.symm.trans hp) (hm.receiver.symm.trans hr)).imp_right
      fun hidle => moves_idle hidle hm hi hgone hb

theorem windStep_windInv {l : CycleLabel} (h : WindInv g c) (horderly : Orderly g c l)
    (hinv : CycleInv g c') (hstep : c.windStep t l = some c') : WindInv g c' := by
  cases l with
  | decide i decision =>
    simp only [RunCycle.windStep, Option.ite_none_right_eq_some] at hstep
    obtain ⟨hi, hstep⟩ := hstep
    have ht : Takes i c c := .refl h.toPlaceInv hi (by simp)
    split at hstep
    · obtain rfl := Option.some.inj hstep
      exact h.moves hinv (b := false) ht.move hi (by simp) (fun _ => rfl) rfl
    · rename_i hover
      obtain ⟨-, hstep⟩ := Option.ite_none_right_eq_some.1 hstep
      obtain rfl := Option.some.inj hstep
      exact ⟨hinv, fun hp => absurd (congrArg CyclePhase.isOver hp) hover⟩
  | runDone i success =>
    simp only [RunCycle.windStep, Option.ite_none_right_eq_some] at hstep
    obtain ⟨hi, hstep⟩ := hstep
    have ht : Takes i c c := .refl h.toPlaceInv hi (by simp)
    split at hstep
    · obtain rfl := Option.some.inj hstep
      exact h.moves hinv (b := false) ht.move hi (by simp) (by simp) rfl
    · obtain rfl := Option.some.inj hstep
      exact h.moves hinv (b := true) ht.move hi (by simp) (by simp) rfl
    · obtain rfl := Option.some.inj hstep
      have ht' : Takes i c (c.triggerFastStop t) := ht.triggerFastStop
      exact h.moves hinv (b := false) ht'.move hi (by simp) (by simp) ht'.phase
  | finalize =>
    simp only [RunCycle.windStep, Option.ite_none_right_eq_some] at hstep
    obtain ⟨-, hstep⟩ := hstep
    by_cases hdrop : c.interrupted = true ∨ c.wasCancelled = true ∨ ¬ c.receiver = true
    · rw [if_pos hdrop] at hstep
      obtain rfl := Option.some.inj hstep
      exact ⟨hinv, fun _ hr => by cases hr⟩
    · rw [if_neg hdrop] at hstep
      obtain rfl := Option.some.inj hstep
      refine ⟨hinv, fun _ hr => ?_⟩
      rcases horderly with hi | hc | hd | hs | hidle
      · exact absurd (.inl hi) hdrop
      · exact absurd (.inr (.inl hc)) hdrop
      · cases hd.symm.trans hr
      · exact .inl hs
      · exact .inr (hidle.of_doomed hidle.ready hidle.sending (fun _ => id) (fun _ => id))
  | finish =>
    simp only [RunCycle.windStep, Option.ite_none_right_eq_some] at hstep
    obtain rfl := Option.some.inj hstep.2
    exact ⟨hinv, fun hp => by cases hp⟩
  | _ => cases hstep

theorem Moves.not_waiting {place : SenderPlace} (hm : Moves i place c c') (hphase : c.phase = .select) :
    c'.phase ≠ .waiting := by
  rcases hm.phase with hp | hp | ⟨hp, -⟩ <;> simp [hp, hphase]

theorem dispatchStep_not_waiting {l : CycleLabel} (h : CycleInv g c)
    (hstep : c.dispatchStep t l = some c') : c'.phase ≠ .waiting := by
  cases l with
  | receive paused =>
    simp only [RunCycle.dispatchStep] at hstep
    split at hstep
    · rename_i i ready hphase hready
      obtain rfl := Option.some.inj hstep
      obtain ⟨place, -, hm⟩ := (receive_takes hready).dispatchReadyTaskAsync (t := t) paused
      exact hm.not_waiting hphase
    · cases hstep
  | handle restored paused =>
    simp only [RunCycle.dispatchStep] at hstep
    split at hstep
    · rename_i i results hphase hresults
      split at hstep
      · obtain rfl := Option.some.inj hstep
        simp [RunCycle.endDispatch]
      · rename_i prepared hi
        obtain rfl := Option.some.inj hstep
        have ht : Takes i c { c with results := results } := { Takes.refl h.toPlaceInv hi (by simp) with }
        obtain ⟨place, -, hm⟩ := ht.dispatchDecisionResult restored paused prepared
        exact hm.not_waiting hphase
      · cases hstep
    · cases hstep
  | closed =>
    simp only [RunCycle.dispatchStep, Option.ite_none_right_eq_some] at hstep
    obtain rfl := Option.some.inj hstep.2
    simp [RunCycle.endDispatch]
  | signal _ | resume | cancel =>
    simp only [RunCycle.dispatchStep] at hstep
    split at hstep
    all_goals
      cases hstep
      try simp [RunCycle.endDispatch, RunCycle.dropReceiver]
  | _ => cases hstep

theorem WindInv.step {l : CycleLabel} (h : WindInv g c) (horderly : Orderly g c l)
    (hstep : c.step rs t l = some c') : WindInv g c' := by
  have hinv : CycleInv g c' := h.toCycleInv.step hstep
  rcases step_cases c l with heq | heq | heq <;> rw [heq] at hstep
  · obtain ⟨hphase, hrecv, hwalk⟩ := walkStep_frame hstep
    refine ⟨hinv, fun hp hr => .inr ?_⟩
    have hidle := (h.idle (hphase.symm.trans hp) (hrecv.symm.trans hr)).resolve_left hwalk
    exact walkStep_idle h.toCycleInv hidle hstep
  · exact ⟨hinv, fun hp => absurd hp (dispatchStep_not_waiting h.toCycleInv hstep)⟩
  · exact windStep_windInv h horderly hinv hstep

theorem windStep_over {l : CycleLabel} (hover : c.phase.isOver) (hstep : c.windStep t l = some c') :
    c'.phase.isOver := by
  cases l with
  | decide i decision =>
    simp only [RunCycle.windStep, Option.ite_none_right_eq_some, hover, if_true] at hstep
    obtain rfl := Option.some.inj hstep.2
    exact hover
  | runDone i success =>
    simp only [RunCycle.windStep, Option.ite_none_right_eq_some] at hstep
    obtain ⟨-, hstep⟩ := hstep
    split at hstep <;> obtain rfl := Option.some.inj hstep
    · exact hover
    · exact hover
    · show (c.triggerFastStop t).phase.isOver
      unfold RunCycle.triggerFastStop
      split <;> exact hover
  | finalize | finish =>
    simp only [RunCycle.windStep, Option.ite_none_right_eq_some] at hstep
    obtain rfl := Option.some.inj hstep.2
    rfl
  | _ => cases hstep

theorem step_over {l : CycleLabel} (hover : c.phase.isOver) (hstep : c.step rs t l = some c') :
    c'.phase.isOver := by
  rcases step_cases c l with heq | heq | heq <;> rw [heq] at hstep
  · exact (walkStep_frame hstep).1 ▸ hover
  · rw [dispatchStep_over hover] at hstep
    cases hstep
  · exact windStep_over hover hstep

theorem step_lower {l : CycleLabel} (h : CycleInv g c) (hover : c.phase.isOver)
    (hstep : c.step rs t l = some c') : load g c' < load g c := by
  rcases step_cases c l with heq | heq | heq <;> rw [heq] at hstep
  · exact walkStep_lower h hstep
  · rw [dispatchStep_over hover] at hstep
    cases hstep
  · exact windStep_lower h hover hstep

/-! ## Where a cycle comes to rest -/

/-- The walker waits only for a task whose sender someone still has, and who has it can go on. -/
theorem step_of_joined (h : WindInv g c) (hphase : c.phase = .waiting)
    (hwalk : c.walking = .waiting) (hcount : c.walker.terminalCount < c.walker.totalCount)
    (hi : i ∈ c.joinSet) : ∃ l, c.step rs t l ≠ none := by
  obtain ⟨hrun, hsome⟩ := h.joined hi
  obtain ⟨place, hplace⟩ := Option.ne_none_iff_exists'.1 hsome
  have hover : c.phase.isOver := by simp [hphase, CyclePhase.isOver]
  obtain ⟨hdecided, hheld⟩ := h.isOver hover i
  cases place with
  | ready =>
    have hmem : i ∈ c.ready := h.ready_iff.1 hplace
    have hnil : c.ready ≠ [] := List.ne_nil_of_mem hmem
    cases hrecv : c.receiver with
    | false => exact absurd (h.receiver hrecv) hnil
    | true =>
      rcases h.idle hphase hrecv with hstopped | hidle
      · cases hwalk.symm.trans hstopped
      · exact absurd hidle.ready hnil
  | deciding =>
    refine ⟨.decide i none, ?_⟩
    simp [RunCycle.step, RunCycle.windStep, hplace, hover]
  | decided decision => exact absurd hplace (hdecided decision)
  | held => exact absurd hplace hheld
  | running =>
    refine ⟨.runDone i none, ?_⟩
    simp [RunCycle.step, RunCycle.windStep, hplace]
  | gone b =>
    obtain ⟨w, hw, -⟩ := settle_inv h.state hrun b
    refine ⟨.join i b, ?_⟩
    simp [RunCycle.step, RunCycle.walkStep, hwalk, hcount, hi, hplace, hw]

theorem returned_of_quiet (h : WindInv g c) (hover : c.phase.isOver) (hquiet : ∀ l, c.step rs t l = none) :
    c.phase = .returned := by
  cases hphase : c.phase with
  | select | paused _ => simp [hphase, CyclePhase.isOver] at hover
  | ended => simpa [RunCycle.step, RunCycle.windStep, hphase] using hquiet .finalize
  | returned => rfl
  | waiting =>
    exfalso
    cases hwalk : c.walking with
    | stopped => simpa [RunCycle.step, RunCycle.windStep, hphase, hwalk] using hquiet .finish
    | enqueue ready =>
      cases ready with
      | nil => simpa [RunCycle.step, RunCycle.walkStep, hwalk] using hquiet .takeNext
      | cons i ready =>
        have hp : labels c i = some .Pending := (h.toEmit_ready (by simp [hwalk, toEmit])).1
        have hnode : (c.walker.nodes.lookup i).isSome := by
          rw [h.state.nodes]
          simpa using h.state.lt_of_lookup hp
        simpa [RunCycle.step, RunCycle.walkStep, hwalk, hnode] using hquiet .takeNext
    | sending i ready =>
      cases hrecv : c.receiver with
      | false => simpa [RunCycle.step, RunCycle.walkStep, hwalk, hrecv] using hquiet .send
      | true =>
        rcases h.idle hphase hrecv with hstopped | hidle
        · cases hwalk.symm.trans hstopped
        · cases hidle.sending.symm.trans (congrArg sendingNode hwalk)
    | waiting =>
      have hstop := hquiet .stop
      simp only [RunCycle.step, RunCycle.walkStep, hwalk, true_and, ite_eq_right_iff, reduceCtorEq,
        imp_false, not_or, not_le] at hstop
      obtain ⟨i, hi⟩ := List.exists_mem_of_ne_nil _ hstop.2
      obtain ⟨l, hl⟩ : ∃ l, c.step rs t l ≠ none := step_of_joined h hphase hwalk hstop.1 hi
      exact hl (hquiet l)

theorem WindInv.of_reach {ts : Toposort TaskNode}
    (h : Reach (cycleSystem ts rs g t) (Orderly g) c) : WindInv g c := by
  refine h.invariant (I := WindInv g) ?_ fun _ _ _ _ hinv ho hstep => hinv.step ho hstep
  intro c hc
  have hreach : Reachable (cycleSystem ts rs g t) c := .init hc
  refine ⟨.of_reachable hreach, fun hp => ?_⟩
  obtain ⟨w, -, rfl⟩ := hc
  cases hp

/-- Once the dispatch phase of an orderly run has ended, in whatever way, the cycle returns as soon as its
decisions are made and its runners are done. -/
theorem settles_of_orderly {ts : Toposort TaskNode}
    (h : Reach (cycleSystem ts rs g t) (Orderly g) c) (hover : c.phase.isOver) :
    Settles (cycleSystem ts rs g t) (Orderly g) (fun _ => True)
      (fun c => c.phase = .returned ∧ WoundDown c) c := by
  refine Settles.of_measure (I := fun c => WindInv g c ∧ c.phase.isOver) (load g) ?_ ?_
    ⟨.of_reach h, hover⟩
  · intro c l c' ⟨hinv, hover⟩ _ horderly hstep
    exact ⟨⟨hinv.step horderly hstep, step_over hover hstep⟩, step_lower hinv.toCycleInv hover hstep⟩
  · rintro c ⟨hinv, hover⟩ hquiet
    have hnone : ∀ l, c.step rs t l = none := fun l => hquiet l trivial
    have hr : c.phase = .returned := returned_of_quiet hinv hover hnone
    exact ⟨hr, hinv.toCycleInv.woundDown hr⟩

end Luchta.Proof.Cycle
