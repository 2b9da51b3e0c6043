import Luchta.Proof.Walker.State

/-!
# The walker's driver

Runs of the driver against every consumer that keeps the ready receiver open and answers each
completion signal once. The driver's part of the invariant says what it still has to emit and which
nodes run; the log's part ties emissions and answers to the labels of the nodes.

* `step_inv`: every step keeps the invariant.
* `exists_step`: until it stops, the driver or its consumer can always move.
* `driver_correct`: what the walker promises, in every reachable state.
-/

namespace Luchta.Proof.Walker

open Luchta.Framework Luchta.Impl Luchta.Spec
open Relation (TransGen)

variable {g : TaskGraph} {rs : RandomState} {d d' : Driver}

def toEmit : DriverPhase → List Nat
  | .enqueue ready => ready
  | .sending _ ready => ready
  | .waiting | .stopped => []

def sendingNode : DriverPhase → Option Nat
  | .sending i _ => some i
  | .enqueue _ | .waiting | .stopped => none

/-- The nodes handed to the consumer, oldest first. -/
def emitted (log : List WalkerEvent) : List Nat :=
  log.filterMap fun
    | .emitted i => some i
    | .answered _ _ => none

@[simp] theorem emitted_append (log log' : List WalkerEvent) :
    emitted (log ++ log') = emitted log ++ emitted log' := List.filterMap_append

@[simp] theorem emitted_singleton (i : Nat) : emitted [.emitted i] = [i] := rfl

@[simp] theorem emitted_answered (i : Nat) (b : Bool) : emitted [.answered i b] = [] := rfl

abbrev labels (d : Driver) : Nat → Option NodeState := fun i => d.walker.states.lookup i

/-- What the driver still has to do. -/
structure PhaseInv (g : TaskGraph) (d : Driver) : Prop where
  state : StateInv g d.walker
  toEmit_nodup : (toEmit d.phase).Nodup
  toEmit_iff : ∀ {i}, i ∈ toEmit d.phase ↔ Ready g.graph.Edge (labels d) i
  running_iff : ∀ {i}, labels d i = some .Running ↔ i ∈ d.joinSet ∨ sendingNode d.phase = some i
  joinSet_nodup : d.joinSet.Nodup
  sending : ∀ {i}, sendingNode d.phase = some i → i ∉ d.joinSet
  stopped : d.phase = .stopped → ∀ i < g.graph.nodes.length, Terminal (labels d) i

/-- Every emission follows the successes of its dependencies. -/
def Ordered (g : TaskGraph) (log : List WalkerEvent) : Prop :=
  ∀ pre post i, log = pre ++ .emitted i :: post →
    ∀ j, g.graph.Edge i j → .answered j true ∈ pre

/-- What the consumer has seen and said. -/
structure LogInv (g : TaskGraph) (d : Driver) : Prop where
  emitted_nodup : (emitted d.log).Nodup
  emitted_iff : ∀ {i}, i ∈ emitted d.log ↔
    i ∈ d.joinSet ∨ labels d i = some .Succeeded ∨ labels d i = some .Failed
  open_nodup : (d.channel ++ d.held).Nodup
  open_iff : ∀ {i}, i ∈ d.channel ++ d.held ↔ i ∈ emitted d.log ∧ ∀ b, .answered i b ∉ d.log
  answered : ∀ {i b}, .answered i b ∈ d.log → i ∈ emitted d.log
  unique : ∀ {i a b}, .answered i a ∈ d.log → .answered i b ∈ d.log → a = b
  succeeded : ∀ {i}, labels d i = some .Succeeded → .answered i true ∈ d.log
  failed : ∀ {i}, labels d i = some .Failed → .answered i false ∈ d.log
  ordered : Ordered g d.log

structure DriverInv (g : TaskGraph) (d : Driver) : Prop extends PhaseInv g d, LogInv g d

/-! ## Ready nodes -/

theorem mem_takeReadyNodes {w : WalkerState} (h : StateInv g w) {i : Nat} :
    i ∈ w.takeReadyNodes rs ↔ Ready g.graph.Edge (fun i => w.states.lookup i) i := by
  rw [WalkerState.takeReadyNodes, List.mem_insertionSort, List.mem_filter, RandomState.mem_permute,
    ← AList.mem_keys, ← AList.lookup_isSome, h.nodes, decide_eq_true_eq]
  constructor
  · rintro ⟨-, hp, hr⟩
    rw [h.remaining hp] at hr
    exact ⟨hp, unmet_eq_zero.1 hr⟩
  · rintro ⟨hp, hdeps⟩
    refine ⟨by simpa using h.lt_of_lookup hp, hp, ?_⟩
    rw [h.remaining hp]
    exact unmet_eq_zero.2 hdeps

theorem takeReadyNodes_nodup (w : WalkerState) : (w.takeReadyNodes rs).Nodup := by
  rw [WalkerState.takeReadyNodes, (List.perm_insertionSort _ _).nodup_iff]
  exact ((rs.perm _).nodup_iff.2 (AList.keys_nodup _)).filter _

theorem init_inv {w : WalkerState} (h : StateInv g w)
    (hp : ∀ {i s}, w.states.lookup i = some s → s = .Pending) : DriverInv g (.init rs w) where
  state := h
  toEmit_nodup := takeReadyNodes_nodup w
  toEmit_iff := mem_takeReadyNodes h
  running_iff := ⟨fun hr => (nomatch hp hr), by simp [Driver.init, sendingNode]⟩
  joinSet_nodup := .nil
  sending hs := by simp [Driver.init, sendingNode] at hs
  stopped hs := nomatch hs
  emitted_nodup := .nil
  emitted_iff := ⟨by simp [Driver.init, emitted], fun h => by
    rcases h with h | h | h
    · simp [Driver.init] at h
    · exact nomatch hp h
    · exact nomatch hp h⟩
  open_nodup := .nil
  open_iff := by simp [Driver.init, emitted]
  answered := by simp [Driver.init]
  unique := by simp [Driver.init]
  succeeded hs := nomatch hp hs
  failed hf := nomatch hp hf
  ordered pre post i h := by simp [Driver.init] at h

/-! ## The steps -/

/-- A label that changes between pending and running settles no node. -/
theorem setRunning_labels {w : WalkerState} {i : Nat} (hi : w.states.lookup i = some .Pending)
    (j : Nat) : (w.setRunning i).states.lookup j =
      if j = i then some .Running else w.states.lookup j := by
  rw [WalkerState.setRunning, if_pos hi, HashMap.lookup_insert_if]

theorem begin_inv {i : Nat} {ready : List Nat} (h : DriverInv g d)
    (hphase : d.phase = .enqueue (i :: ready)) :
    DriverInv g { d with walker := d.walker.setRunning i, phase := .sending i ready } := by
  have hready : Ready g.graph.Edge (labels d) i := h.toEmit_iff.1 (by simp [hphase, toEmit])
  have hp := hready.1
  have hnd : i ∉ ready ∧ ready.Nodup := by
    simpa [hphase, toEmit] using h.toEmit_nodup
  have hlab : ∀ j s, s ≠ .Running →
      ((d.walker.setRunning i).states.lookup j = some s ↔ j ≠ i ∧ labels d j = some s) := by
    intro j s hs
    rw [setRunning_labels hp]
    split
    · simp [*, Ne.symm hs]
    · simp [*]
  have hsettled : ∀ j s, s ≠ .Running → s ≠ .Pending →
      ((d.walker.setRunning i).states.lookup j = some s ↔ labels d j = some s) := by
    intro j s hr hs
    refine (hlab j s hr).trans (and_iff_right_of_imp fun hj => ?_)
    rintro rfl
    exact hs (Option.some.inj (hj.symm.trans hp))
  refine { h with
    state := setRunning_inv h.state hready
    toEmit_nodup := hnd.2
    toEmit_iff := fun {j} => ?_
    running_iff := fun {j} => ?_
    sending := fun {j} hj => ?_
    stopped := nofun
    emitted_iff := fun {j} => ?_
    succeeded := fun {j} hj => h.succeeded ((hsettled j _ (by simp) (by simp)).1 hj)
    failed := fun {j} hj => h.failed ((hsettled j _ (by simp) (by simp)).1 hj) }
  · have hold : j ∈ i :: ready ↔ Ready g.graph.Edge (labels d) j := by
      simpa [hphase, toEmit] using h.toEmit_iff (i := j)
    have hdeps : (∀ k, g.graph.Edge j k → (d.walker.setRunning i).states.lookup k =
        some .Succeeded) ↔ ∀ k, g.graph.Edge j k → labels d k = some .Succeeded :=
      forall₂_congr fun k _ => hsettled k _ (by simp) (by simp)
    rw [Ready, hlab j _ (by simp), hdeps, and_assoc, ← Ready, ← hold, toEmit, List.mem_cons]
    constructor
    · intro hj
      refine ⟨?_, .inr hj⟩
      rintro rfl
      exact hnd.1 hj
    · exact fun ⟨hne, hj⟩ => hj.resolve_left hne
  · have hold := h.running_iff (i := j)
    simp only [hphase, sendingNode, reduceCtorEq, or_false] at hold
    simp only [labels, setRunning_labels hp, sendingNode, Option.some.injEq]
    split
    · simp [*]
    · rw [hold]
      simp [Ne.symm ‹¬j = i›]
  · obtain rfl : i = j := by simpa [sendingNode] using hj
    intro hmem
    exact nomatch hp.symm.trans (h.running_iff.2 (.inl hmem))
  · rw [labels, hsettled j _ (by simp) (by simp), hsettled j _ (by simp) (by simp)]
    exact h.emitted_iff

/-- The invariant sees a phase only through what is left to emit and the node being sent. -/
theorem phase_inv (h : DriverInv g d) {phase : DriverPhase} (hemit : toEmit phase = toEmit d.phase)
    (hsend : sendingNode phase = sendingNode d.phase)
    (hstop : phase = .stopped → ∀ i < g.graph.nodes.length, Terminal (labels d) i) :
    DriverInv g { d with phase := phase } :=
  { h with
    stopped := hstop
    toEmit_nodup := hemit ▸ h.toEmit_nodup
    toEmit_iff := hemit ▸ h.toEmit_iff
    running_iff := hsend ▸ h.running_iff
    sending := hsend ▸ h.sending }

theorem eq_or_of_append_singleton {α : Type*} {l pre post : List α} {a b : α}
    (h : l ++ [a] = pre ++ b :: post) :
    (l = pre ∧ a = b) ∨ ∃ post', l = pre ++ b :: post' := by
  rcases List.eq_nil_or_concat post with rfl | ⟨post', c, rfl⟩
  · obtain ⟨hl, ha⟩ := List.append_inj' h rfl
    exact .inl ⟨hl, by simpa using ha⟩
  · refine .inr ⟨post', ?_⟩
    rw [List.concat_eq_append, ← List.cons_append, ← List.append_assoc] at h
    exact (List.append_inj' h rfl).1

theorem Ordered.answered {log : List WalkerEvent} (h : Ordered g log) (i : Nat) (b : Bool) :
    Ordered g (log ++ [.answered i b]) := by
  intro pre post k hsplit
  rcases eq_or_of_append_singleton hsplit with ⟨-, heq⟩ | ⟨post', hlog⟩
  · cases heq
  · exact h pre post' k hlog

theorem Ordered.emitted {log : List WalkerEvent} (h : Ordered g log) {i : Nat}
    (hi : ∀ j, g.graph.Edge i j → .answered j true ∈ log) : Ordered g (log ++ [.emitted i]) := by
  intro pre post k hsplit
  rcases eq_or_of_append_singleton hsplit with ⟨rfl, heq⟩ | ⟨post', hlog⟩
  · obtain rfl : i = k := by simpa using heq
    exact hi
  · exact h pre post' k hlog

theorem send_inv {i : Nat} {ready : List Nat} (h : DriverInv g d)
    (hphase : d.phase = .sending i ready) :
    DriverInv g { d with
      phase := .enqueue ready
      channel := d.channel ++ [i]
      joinSet := d.joinSet ++ [i]
      log := d.log ++ [.emitted i] } := by
  have hrun : labels d i = some .Running := h.running_iff.2 (.inr (by simp [hphase, sendingNode]))
  have hjoin : i ∉ d.joinSet := h.sending (by simp [hphase, sendingNode])
  have hfresh : i ∉ emitted d.log := by simp [h.emitted_iff, hjoin, hrun]
  have hopen : i ∉ d.channel ++ d.held := fun hi => hfresh (h.open_iff.1 hi).1
  have hperm : (d.channel ++ [i] ++ d.held).Perm (i :: (d.channel ++ d.held)) := by
    rw [List.append_assoc]
    exact List.perm_middle
  refine { h with
    toEmit_nodup := by simpa [hphase, toEmit] using h.toEmit_nodup
    toEmit_iff := fun {j} => by
      have hold := h.toEmit_iff (i := j)
      rw [hphase] at hold
      exact hold
    running_iff := fun {j} => ?_
    joinSet_nodup := ?_
    sending := by simp [sendingNode]
    stopped := nofun
    emitted_nodup := ?_
    emitted_iff := fun {j} => ?_
    open_nodup := hperm.nodup_iff.2 (List.nodup_cons.2 ⟨hopen, h.open_nodup⟩)
    open_iff := fun {j} => ?_
    answered := fun {j b} hj => ?_
    unique := fun ha hb => h.unique (by simpa using ha) (by simpa using hb)
    succeeded := fun hj => List.mem_append_left _ (h.succeeded hj)
    failed := fun hj => List.mem_append_left _ (h.failed hj)
    ordered := h.ordered.emitted fun j hj => h.succeeded (h.state.consistent.started (.inl hrun) hj) }
  · rw [h.running_iff, hphase]
    simp [sendingNode, eq_comm]
  · simpa [List.nodup_append, h.joinSet_nodup] using fun a ha => ne_of_mem_of_not_mem ha hjoin
  · simpa [List.nodup_append, h.emitted_nodup] using fun a ha => ne_of_mem_of_not_mem ha hfresh
  · simp only [emitted_append, emitted_singleton, List.mem_append, List.mem_singleton, h.emitted_iff]
    tauto
  · rw [hperm.mem_iff, List.mem_cons, h.open_iff]
    simp only [emitted_append, emitted_singleton, List.mem_append, List.mem_singleton,
      reduceCtorEq, or_false]
    constructor
    · rintro (rfl | ⟨he, hb⟩)
      · exact ⟨.inr rfl, fun b hb => hfresh (h.answered hb)⟩
      · exact ⟨.inl he, hb⟩
    · rintro ⟨he | rfl, hb⟩
      · exact .inr ⟨he, hb⟩
      · exact .inl rfl
  · have : WalkerEvent.answered j b ∈ d.log := by simpa using hj
    simp [h.answered this]

theorem recv_inv {i : Nat} {channel : List Nat} (h : DriverInv g d)
    (hchan : d.channel = i :: channel) :
    DriverInv g { d with channel := channel, held := d.held ++ [i] } := by
  have hperm : (channel ++ (d.held ++ [i])).Perm (d.channel ++ d.held) := by
    rw [hchan, ← List.append_assoc, List.cons_append]
    exact List.perm_append_singleton _ _
  exact { h with
    open_nodup := hperm.nodup_iff.2 h.open_nodup
    open_iff := hperm.mem_iff.trans h.open_iff }

theorem answer_inv {i : Nat} {b : Bool} (h : DriverInv g d) (hheld : i ∈ d.held) :
    DriverInv g { d with held := d.held.erase i, log := d.log ++ [.answered i b] } := by
  obtain ⟨hemit, hno⟩ := h.open_iff.1 (List.mem_append_right _ hheld)
  obtain ⟨hchan, hnd, hdisj⟩ := List.nodup_append.1 h.open_nodup
  refine { h with
    emitted_nodup := by simpa using h.emitted_nodup
    emitted_iff := fun {j} => by
      rw [emitted_append, emitted_answered, List.append_nil]
      exact h.emitted_iff
    open_nodup := ?_
    open_iff := fun {j} => ?_
    answered := fun {j c} hj => ?_
    unique := fun {j a c} ha hc => ?_
    succeeded := fun hj => List.mem_append_left _ (h.succeeded hj)
    failed := fun hj => List.mem_append_left _ (h.failed hj)
    ordered := h.ordered.answered i b }
  · exact h.open_nodup.sublist ((List.Sublist.refl _).append List.erase_sublist)
  · by_cases hj : j = i
    · subst hj
      have hnot : j ∉ d.channel ++ d.held.erase j := by
        simp only [List.mem_append, hnd.mem_erase_iff, ne_eq, not_true, false_and, or_false]
        exact fun hc => hdisj j hc j hheld rfl
      exact iff_of_false hnot fun ⟨_, hc⟩ => hc b (by simp)
    · have hold := h.open_iff (i := j)
      simp only [List.mem_append, List.mem_erase_of_ne hj, emitted_append, emitted_answered,
        List.append_nil, List.mem_singleton, WalkerEvent.answered.injEq, hj, false_and, or_false]
      simpa using hold
  · simp only [List.mem_append, List.mem_singleton, WalkerEvent.answered.injEq] at hj
    rcases hj with hj | ⟨rfl, -⟩
    · simpa using h.answered hj
    · simpa using hemit
  · simp only [List.mem_append, List.mem_singleton, WalkerEvent.answered.injEq] at ha hc
    rcases ha with ha | ⟨rfl, rfl⟩ <;> rcases hc with hc | ⟨hji, rfl⟩
    · exact h.unique ha hc
    · exact absurd (hji ▸ ha) (hno a)
    · exact absurd hc (hno c)
    · rfl

/-- What settling a running node changes: it is settled, and pending nodes may be skipped. -/
structure Settles (d : Driver) (i : Nat) (s : NodeState) (w : WalkerState) : Prop where
  self : w.states.lookup i = some s
  other : ∀ j ≠ i, w.states.lookup j = labels d j ∨
    labels d j = some .Pending ∧ w.states.lookup j = some .Skipped

theorem Settles.iff {i : Nat} {s : NodeState} {w : WalkerState} (h : Settles d i s w) {j : Nat}
    (hj : j ≠ i) {t : NodeState} (ht : t = .Running ∨ t = .Succeeded ∨ t = .Failed) :
    w.states.lookup j = some t ↔ labels d j = some t := by
  rcases h.other j hj with heq | ⟨hp, hs⟩
  · rw [heq]
  · rw [hp, hs]
    rcases ht with rfl | rfl | rfl <;> simp

theorem join_inv {i : Nat} {b : Bool} {w : WalkerState} (h : DriverInv g d)
    (hphase : d.phase = .waiting) (hi : i ∈ d.joinSet) (hb : .answered i b ∈ d.log)
    (hw : StateInv g w) (hs : Settles d i (if b then .Succeeded else .Failed) w) :
    DriverInv g { d with
      walker := w
      phase := .enqueue (w.takeReadyNodes rs)
      joinSet := d.joinSet.erase i } := by
  have hself : ∀ {t : NodeState}, w.states.lookup i = some t ↔
      (if b then .Succeeded else .Failed) = t := by simp [hs.self]
  have hnotR : w.states.lookup i ≠ some .Running := by cases b <;> simp [hs.self]
  refine { h with
    state := hw
    toEmit_nodup := takeReadyNodes_nodup w
    toEmit_iff := mem_takeReadyNodes hw
    running_iff := fun {j} => ?_
    joinSet_nodup := h.joinSet_nodup.erase i
    sending := by simp [sendingNode]
    stopped := nofun
    emitted_iff := fun {j} => ?_
    succeeded := fun {j} hj => ?_
    failed := fun {j} hj => ?_ }
  · by_cases hj : j = i
    · subst hj
      simp [labels, hnotR, sendingNode, h.joinSet_nodup.mem_erase_iff]
    · have hold := h.running_iff (i := j)
      simp only [hphase, sendingNode, reduceCtorEq, or_false] at hold
      rw [labels, hs.iff hj (.inl rfl), hold]
      simp [sendingNode, List.mem_erase_of_ne hj]
  · rw [h.emitted_iff]
    by_cases hj : j = i
    · subst hj
      cases b <;> simp [labels, hi, hs.self]
    · rw [List.mem_erase_of_ne hj]
      exact or_congr_right (or_congr (hs.iff hj (by simp)).symm (hs.iff hj (by simp)).symm)
  · by_cases hji : j = i
    · subst hji
      cases b
      · simp [labels, hs.self] at hj
      · exact hb
    · exact h.succeeded ((hs.iff hji (by simp)).1 hj)
  · by_cases hji : j = i
    · subst hji
      cases b
      · exact hb
      · simp [labels, hs.self] at hj
    · exact h.failed ((hs.iff hji (by simp)).1 hj)

/-- Settling a node that is joined never panics. -/
theorem exists_settled {i : Nat} {b : Bool} (h : DriverInv g d) (hi : i ∈ d.joinSet) :
    ∃ w, d.walker.settle i b = some w ∧ StateInv g w ∧
      Settles d i (if b then .Succeeded else .Failed) w := by
  have hrun : d.walker.states.lookup i = some .Running := h.running_iff.2 (.inl hi)
  obtain ⟨w, hw, hinv, hself, hother⟩ := settle_inv h.state hrun b
  exact ⟨w, hw, hinv, hself, hother⟩

/-- At the head of the loop and after it, no task is ready. -/
theorem not_ready (h : DriverInv g d) (hphase : d.phase = .waiting ∨ d.phase = .stopped) (i : Nat) :
    ¬ Ready g.graph.Edge (labels d) i := fun hi => by
  have := h.toEmit_iff.2 hi
  rcases hphase with hp | hp <;> simp [hp, toEmit] at this

/-- With nothing ready and nothing running, every task is terminal. -/
theorem terminal_of_idle (hg : g.graph.Acyclic) (h : DriverInv g d)
    (hphase : d.phase = .waiting ∨ d.phase = .stopped) (hjoin : d.joinSet = []) {i : Nat}
    (hi : i < g.graph.nodes.length) : Terminal (labels d) i := by
  have hrun : ∀ j, labels d j ≠ some .Running := by
    intro j hj
    rcases hphase with hp | hp <;> simp [h.running_iff, hjoin, hp, sendingNode] at hj
  obtain ⟨s, hs⟩ := Option.isSome_iff_exists.1 (h.state.dom.2 hi)
  cases s with
  | Pending =>
    obtain ⟨j, hj⟩ := h.state.consistent.exists_ready hg.wellFounded hrun hs
    exact absurd hj (not_ready h hphase j)
  | Running => exact absurd hs (hrun i)
  | Succeeded | Failed | Skipped => exact ⟨_, hs, rfl⟩

theorem step_inv (hg : g.graph.Acyclic) (h : DriverInv g d) {l : DriverLabel} (hstep : Driver.step rs d l = some d') :
    DriverInv g d' := by
  cases l with
  | takeNext =>
    rw [Driver.step] at hstep
    split at hstep
    · obtain rfl := Option.some.inj hstep
      exact phase_inv h (by simp [*, toEmit]) (by simp [*, sendingNode]) nofun
    · split at hstep
      · obtain rfl := Option.some.inj hstep
        exact begin_inv h ‹_›
      · cases hstep
    · cases hstep
  | send =>
    rw [Driver.step] at hstep
    split at hstep
    · split at hstep
      · obtain rfl := Option.some.inj hstep
        exact send_inv h ‹_›
      · cases hstep
    · cases hstep
  | recv =>
    rw [Driver.step] at hstep
    split at hstep
    · cases hstep
    · obtain rfl := Option.some.inj hstep
      exact recv_inv h ‹_›
  | answer i b =>
    rw [Driver.step, Option.ite_none_right_eq_some] at hstep
    obtain ⟨hheld, hstep⟩ := hstep
    obtain rfl := Option.some.inj hstep
    exact answer_inv h hheld
  | join i b =>
    rw [Driver.step, Option.ite_none_right_eq_some] at hstep
    obtain ⟨⟨hphase, -, hi, hb⟩, hstep⟩ := hstep
    obtain ⟨w, hw, hinv, hset⟩ := exists_settled (b := b) h hi
    rw [hw] at hstep
    obtain rfl := Option.some.inj hstep
    exact join_inv h hphase hi hb hinv hset
  | stop =>
    rw [Driver.step, Option.ite_none_right_eq_some] at hstep
    obtain ⟨⟨hphase, hend⟩, hstep⟩ := hstep
    obtain rfl := Option.some.inj hstep
    refine phase_inv h (by rw [hphase]; rfl) (by rw [hphase]; rfl) fun _ => ?_
    rcases hend with hcount | hjoin
    · exact h.state.total_le_iff.1 hcount
    · exact fun i hi => terminal_of_idle hg h (.inl hphase) hjoin hi

/-! ## Progress -/

/-- The ready channel has room for every task, so the driver never waits for its consumer. -/
theorem channel_lt (h : DriverInv g d) {i : Nat} (hi : labels d i = some .Running)
    (hnot : i ∉ emitted d.log) : d.channel.length < d.bufferSize := by
  have hlen : d.walker.nodes.entries.length = g.graph.nodes.length :=
    length_entries fun i => by simp [h.state.nodes]
  have hlt : ∀ j ∈ i :: d.channel, j ∈ List.range g.graph.nodes.length := by
    intro j hj
    rw [List.mem_range]
    rcases List.mem_cons.1 hj with rfl | hj
    · exact h.state.lt_of_lookup hi
    · rcases h.emitted_iff.1 (h.open_iff.1 (List.mem_append_left _ hj)).1 with hr | hs | hf
      · exact h.state.lt_of_lookup (h.running_iff.2 (.inl hr))
      · exact h.state.lt_of_lookup hs
      · exact h.state.lt_of_lookup hf
  have hnd : (i :: d.channel).Nodup := by
    refine List.nodup_cons.2 ⟨fun hmem => hnot ?_, (List.nodup_append.1 h.open_nodup).1⟩
    exact (h.open_iff.1 (List.mem_append_left _ hmem)).1
  have := (List.subperm_of_subset hnd hlt).length_le
  simp only [List.length_cons, List.length_range] at this
  rw [Driver.bufferSize, hlen]
  omega

theorem step_join {i : Nat} {b : Bool} {w : WalkerState} (hphase : d.phase = .waiting)
    (hcount : d.walker.terminalCount < d.walker.totalCount) (hi : i ∈ d.joinSet)
    (hb : .answered i b ∈ d.log) (hw : d.walker.settle i b = some w) :
    Driver.step rs d (.join i b) = some { d with
      walker := w
      phase := .enqueue (w.takeReadyNodes rs)
      joinSet := d.joinSet.erase i } := by
  rw [Driver.step, if_pos ⟨hphase, hcount, hi, hb⟩, hw]
  rfl

theorem exists_step (h : DriverInv g d) (hstop : d.phase ≠ .stopped) :
    ∃ l d', Driver.step rs d l = some d' := by
  match hphase : d.phase with
  | .enqueue [] => exact ⟨.takeNext, _, by rw [Driver.step, hphase]⟩
  | .enqueue (i :: ready) =>
    have hp : labels d i = some .Pending := (h.toEmit_iff.1 (by simp [hphase, toEmit])).1
    have hnode : (d.walker.nodes.lookup i).isSome := by
      rw [h.state.nodes]
      simpa using h.state.lt_of_lookup hp
    exact ⟨.takeNext, _, by rw [Driver.step, hphase]; exact if_pos hnode⟩
  | .sending i ready =>
    have hrun : labels d i = some .Running :=
      h.running_iff.2 (.inr (by simp [hphase, sendingNode]))
    have hnot : i ∉ emitted d.log := by
      simp [h.emitted_iff, hrun, h.sending (i := i) (by simp [hphase, sendingNode])]
    exact ⟨.send, _, by rw [Driver.step, hphase]; exact if_pos (channel_lt h hrun hnot)⟩
  | .waiting =>
    by_cases hcount : d.walker.totalCount ≤ d.walker.terminalCount
    · exact ⟨.stop, _, by rw [Driver.step]; exact if_pos ⟨hphase, .inl hcount⟩⟩
    match hjoin : d.joinSet with
    | [] => exact ⟨.stop, _, by rw [Driver.step]; exact if_pos ⟨hphase, .inr hjoin⟩⟩
    | i :: rest =>
      have hi : i ∈ d.joinSet := by simp [hjoin]
      by_cases hans : ∃ b, .answered i b ∈ d.log
      · obtain ⟨b, hb⟩ := hans
        obtain ⟨w, hw, -⟩ := exists_settled (b := b) h hi
        exact ⟨.join i b, _, step_join hphase (Nat.lt_of_not_le hcount) hi hb hw⟩
      · -- the consumer still owes an answer: it has the message, or the channel has
        have hopen := h.open_iff.2 ⟨h.emitted_iff.2 (.inl hi), not_exists.1 hans⟩
        rcases List.mem_append.1 hopen with hc | hheld
        · match hchan : d.channel with
          | [] => simp [hchan] at hc
          | j :: channel => exact ⟨.recv, _, by rw [Driver.step, hchan]⟩
        · exact ⟨.answer i true, _, by rw [Driver.step]; exact if_pos hheld⟩
  | .stopped => exact absurd hphase hstop

/-! ## What the walker promises -/

theorem reachable_inv {ts : Toposort TaskNode} (hg : g.graph.Acyclic)
    (hd : Reachable (walkerSystem ts rs g) d) : DriverInv g d := by
  refine hd.invariant (I := DriverInv g) ?_ fun s l t _ h _ hstep => step_inv hg h hstep
  rintro s ⟨w, hw, rfl⟩
  obtain ⟨w', hw', hinv, hp, -⟩ := fromGraph_inv ts rs hg
  obtain rfl := Option.some.inj (hw'.symm.trans hw)
  exact init_inv hinv hp

/-- What the walker promises of the task graph `g`, in one state of its driver. -/
structure DriverCorrect (rs : RandomState) (g : TaskGraph) (d : Driver) : Prop where
  /-- Every task is emitted at most once. -/
  emitted_once : (emitted d.log).Nodup
  /-- When a task is emitted, each of its direct dependencies has been answered `true`. -/
  after_dependencies : ∀ pre post i, d.log = pre ++ .emitted i :: post →
    ∀ j, g.graph.Edge i j → .answered j true ∈ pre
  /-- When the driver stops, every task has succeeded, has failed or is skipped. -/
  all_terminal : d.phase = .stopped → ∀ i < g.graph.nodes.length,
    labels d i = some .Succeeded ∨ labels d i = some .Failed ∨ labels d i = some .Skipped
  /-- When the driver stops, the skipped tasks are the ones never emitted, and exactly those with
  a transitive dependency that was answered `false`. -/
  skipped : d.phase = .stopped → ∀ i < g.graph.nodes.length,
    (labels d i = some .Skipped ↔ i ∉ emitted d.log) ∧
    (labels d i = some .Skipped ↔ ∃ j, TransGen g.graph.Edge i j ∧ .answered j false ∈ d.log)
  terminal_count : d.walker.terminalCount = (terminalNodes g d.walker.states).card
  /-- The loop is left exactly when the last node is terminal. -/
  stops_iff : d.phase = .waiting →
    ((∃ d', Driver.step rs d .stop = some d') ↔
      ∀ i < g.graph.nodes.length, Terminal (labels d) i)
  /-- At the head of the loop, and after it, no pending task has all its dependencies. -/
  none_ready : d.phase = .waiting ∨ d.phase = .stopped → ∀ i, ¬ Ready g.graph.Edge (labels d) i
  /-- Until it stops, the driver or its consumer can move. -/
  progress : d.phase ≠ .stopped → ∃ l d', Driver.step rs d l = some d'

/-- Nothing that depends on a task that failed is handed out. -/
theorem not_emitted_of_failed (h : DriverInv g d) {i j : Nat} (hi : .answered i false ∈ d.log)
    (hj : Relation.TransGen g.graph.Edge j i) : .emitted j ∉ d.log := by
  have hdirect : ∀ {j k}, g.graph.Edge j k → .emitted j ∈ d.log → .answered k true ∈ d.log := by
    intro j k hjk hemit
    obtain ⟨pre, post, hlog⟩ := List.append_of_mem hemit
    rw [hlog]
    exact List.mem_append_left _ (h.ordered pre post j hlog k hjk)
  induction hj using Relation.TransGen.head_induction_on with
  | single hji => exact fun hemit => absurd (h.unique hi (hdirect hji hemit)) (by decide)
  | head hjk _ ih =>
    intro hemit
    obtain ⟨e, he, hek⟩ := List.mem_filterMap.1 (h.answered (hdirect hjk hemit))
    cases e with
    | emitted k =>
      obtain rfl := Option.some.inj hek
      exact ih he
    | answered => cases hek

/-- An answer `false` is the failure of its task once the driver is done. -/
theorem answered_false_iff (h : DriverInv g d) (hphase : d.phase = .stopped) {i : Nat} :
    .answered i false ∈ d.log ↔ labels d i = some .Failed := by
  refine ⟨fun hans => ?_, h.failed⟩
  have hterm := h.stopped hphase
  rcases h.emitted_iff.1 (h.answered hans) with hrun | hs | hf
  · have hr := h.running_iff.2 (.inl hrun)
    obtain ⟨s, hs, ht⟩ := hterm i (h.state.lt_of_lookup hr)
    cases hr.symm.trans hs
    cases ht
  · cases h.unique hans (h.succeeded hs)
  · exact hf

theorem driver_correct {ts : Toposort TaskNode} (hg : g.graph.Acyclic)
    (hd : Reachable (walkerSystem ts rs g) d) : DriverCorrect rs g d := by
  have h := reachable_inv hg hd
  have hterm : d.phase = .stopped → ∀ i < g.graph.nodes.length,
      labels d i = some .Succeeded ∨ labels d i = some .Failed ∨ labels d i = some .Skipped := by
    intro hphase i hi
    obtain ⟨s, hs, ht⟩ := h.stopped hphase i hi
    cases s <;> simp_all [NodeState.terminal]
  refine ⟨h.emitted_nodup, h.ordered, hterm, fun hphase i hi => ⟨?_, ?_⟩, h.state.count,
    fun hphase => ⟨?_, fun hall => ⟨_, if_pos ⟨hphase, .inl (h.state.total_le_iff.2 hall)⟩⟩⟩,
    not_ready h, exists_step h⟩
  · have hjoin : i ∉ d.joinSet := fun hmem => by
      have := h.running_iff.2 (.inl hmem)
      rcases hterm hphase i hi with hs | hs | hs <;> cases this.symm.trans hs
    rw [h.emitted_iff]
    rcases hterm hphase i hi with hs | hs | hs <;> simp [hs, hjoin]
  · rw [h.state.consistent.skipped_iff hg.wellFounded]
    simp only [answered_false_iff h hphase]
  · rintro ⟨d', hstep⟩
    rw [Driver.step, Option.ite_none_right_eq_some] at hstep
    obtain ⟨⟨-, hend⟩, -⟩ := hstep
    rcases hend with hcount | hjoin
    · exact h.state.total_le_iff.1 hcount
    · exact fun i hi => terminal_of_idle hg h (.inl hphase) hjoin hi

/-- `app#build` depends on `lib#build`. -/
def chain : TaskGraph where
  graph := {
    nodes := [⟨⟨⟨"app"⟩, ⟨"build"⟩⟩, 1⟩, ⟨⟨⟨"lib"⟩, ⟨"build"⟩⟩, 2⟩]
    edges := [(0, 1)]
    edges_lt := by decide }
  indicesById := HashMap.ofList [(⟨⟨"app"⟩, ⟨"build"⟩⟩, 0), (⟨⟨"lib"⟩, ⟨"build"⟩⟩, 1)]
  definitionsById := ∅
  inputsFromWorkerById := ∅
  indices_iff {id i} := by
    rw [HashMap.lookup_ofList (by decide)]
    match i with
    | 0 => simp [eq_comm]
    | 1 => simp [eq_comm]
    | i + 2 => simp

theorem driver_correct_chain : ∃ d, (walkerSystem .kahn .id chain).init d ∧
    DriverCorrect .id chain d := by
  have hg : chain.graph.Acyclic := Toposort.kahn.ok_iff.1 ⟨[0, 1], by decide⟩
  obtain ⟨w, hw, -⟩ := fromGraph_inv .kahn .id hg
  exact ⟨_, ⟨w, hw, rfl⟩, driver_correct hg (.init ⟨w, hw, rfl⟩)⟩

end Luchta.Proof.Walker
