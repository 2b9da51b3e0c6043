import Luchta.Impl.CycleOutcome
import Luchta.Proof.Cycle.Senders

/-!
# Success means that every task has succeeded

What the result of a cycle says about its tasks, in runs in which no runner panics.

* `Broken`: the cycle has been cut short.
* `OutcomeInv.step`: a task is refused only after a failure that is reported, or in a broken cycle, and a
  cycle that is not broken ends its dispatch phase with every task settled.
* `cycle_succeeds_iff`: the result is success exactly where every task was answered with success.
-/

namespace Luchta.Proof.Cycle

open Luchta.Framework Luchta.Impl Luchta.Spec
open Luchta.Proof.Walker (StateInv sendingNode settle_inv)

variable {g : TaskGraph} {rs : RandomState} {t : CycleTasks} {ts : Toposort TaskNode}
  {c c' : RunCycle} {r r' : ReportedCycle} {i j : Nat}

/-- The cycle was cancelled or interrupted, or its loop has failed. -/
def Broken (r : ReportedCycle) : Prop :=
  r.cycle.wasCancelled = true ∨ r.wasInterrupted = true ∨ r.runResult ≠ .ok ()

/-- No runner panics. -/
def NoPanic (_ : ReportedCycle) : CycleLabel → Prop
  | .runDone _ none => False
  | _ => True

structure OutcomeInv (g : TaskGraph) (r : ReportedCycle) : Prop where
  cycle : CycleInv g r.cycle
  answered : Answered r.cycle
  sampled : r.wasInterrupted = true → r.cycle.phase = .waiting ∨ r.cycle.phase = .returned
  failed : r.cycle.anyFailed = true → ∃ i < g.graph.nodes.length, r.cycle.sender i = some (.gone false)
  refused : ∀ {i}, r.cycle.sender i = some (.gone false) → r.cycle.anyFailed = true ∨ Broken r
  receiver : r.cycle.receiver = false → Broken r ∨ r.cycle.phase = .returned
  isOver : r.cycle.phase.isOver → Broken r ∨ r.cycle.walking = .stopped
  stopped : r.cycle.walking = .stopped → Broken r ∨
    ∀ i < g.graph.nodes.length, Terminal (labels r.cycle) i

/-- A walker that stops with the receiver of its channel open has settled every task. -/
theorem terminal_of_stop (h : CycleInv g c) (hg : g.graph.Acyclic) (hwalk : c.walking = .waiting)
    (hend : c.walker.totalCount ≤ c.walker.terminalCount ∨ c.joinSet = []) (hr : c.receiver = true)
    (hi : i < g.graph.nodes.length) : Terminal (labels c) i := by
  rcases hend with hcount | hempty
  · exact h.state.total_le_iff.1 hcount i hi
  · have hrunning : ∀ j, labels c j ≠ some .Running := fun j hj => by
      rcases h.running hr hj with hmem | hsend
      · simp [hempty] at hmem
      · simp [hwalk, sendingNode] at hsend
    obtain ⟨s, hs⟩ := Option.isSome_iff_exists.1 (h.state.dom.2 hi)
    cases s with
    | Pending =>
      obtain ⟨j, hj⟩ := h.state.consistent.exists_ready hg.wellFounded hrunning hs
      have hmem := h.ready hr hj
      simp [hwalk, Luchta.Proof.Walker.toEmit] at hmem
    | Running => exact absurd hs (hrunning i)
    | _ => exact ⟨_, hs, rfl⟩

/-! ## What a step of the loop, or of the end of the cycle, reports -/

/-- With this step the cycle is cut short. -/
def Cut (l : CycleLabel) (c c' : RunCycle) : Prop :=
  c'.wasCancelled = true ∨ (ReportedCycle.dispatchError c' l).isSome = true ∨
    l = .finalize ∧ c.interrupted = true

/-- A task that is refused has failed, or the cycle is cut short; so it is where the loop ends before the
walker has stopped. -/
structure Reports (l : CycleLabel) (c c' : RunCycle) : Prop where
  receiver : c'.receiver = false → c.receiver = false ∨ Cut l c c' ∨ c'.phase = .returned
  isOver : c'.phase.isOver → c.phase.isOver ∨ Cut l c c' ∨ c.walking = .stopped
  refused : ∀ {j}, c'.sender j = some (.gone false) → c.sender j = some (.gone false) ∨
    c'.anyFailed = true ∨ Cut l c c' ∨ l = .runDone j none ∨ c.phase.isOver ∧ c.sender j = some .deciding
  failed : c'.anyFailed = true → c.anyFailed = true ∨ ∃ j place, c.sender j = some place ∧
    (∀ b, place ≠ .gone b) ∧ c'.sender j = some (.gone false)

variable {l : CycleLabel}

/-- The sender of one task moves, and no task fails by it. -/
theorem Reports.of_move {place : SenderPlace} (hr : c'.receiver = c.receiver)
    (ho : c'.phase.isOver → c.phase.isOver) (hf : c'.anyFailed = c.anyFailed)
    (hs : c'.sender = Function.update c.sender i (some place))
    (hplace : place = .gone false → c.anyFailed = true ∨ l = .runDone i none ∨
      c.phase.isOver ∧ c.sender i = some .deciding) : Reports l c c' where
  receiver h := .inl (hr ▸ h)
  isOver h := .inl (ho h)
  refused {j} hj := by
    rw [hs, Function.update_apply] at hj
    split at hj
    · rename_i heq
      subst heq
      rcases hplace (Option.some.inj hj) with h | h | h
      · exact .inr (.inl (hf.trans h))
      · exact .inr (.inr (.inr (.inl h)))
      · exact .inr (.inr (.inr (.inr h)))
    · exact .inl hj
  failed h := .inl (hf ▸ h)

/-- A task fails, and its sender says so. -/
theorem Reports.of_fail {place : SenderPlace} (hi : c.sender i = some place)
    (hplace : ∀ b, place ≠ .gone b) (hr : c'.receiver = c.receiver) (ho : c'.phase = c.phase)
    (hf : c'.anyFailed = true) (hs : c'.sender = Function.update c.sender i (some (.gone false))) :
    Reports l c c' where
  receiver h := .inl (hr ▸ h)
  isOver h := .inl (ho ▸ h)
  refused _ := .inr (.inl hf)
  failed _ := .inr ⟨i, place, hi, hplace, by rw [hs, Function.update_self]⟩

theorem Reports.of_cut (h : Cut l c c') (hf : c'.anyFailed = c.anyFailed) : Reports l c c' where
  receiver _ := .inr (.inl h)
  isOver _ := .inr (.inl h)
  refused _ := .inr (.inr (.inl h))
  failed ha := .inl (hf ▸ ha)

theorem triggerFastStop_frame : (c.triggerFastStop t).receiver = c.receiver ∧
    (c.triggerFastStop t).phase = c.phase ∧ (c.triggerFastStop t).anyFailed = true := by
  unfold RunCycle.triggerFastStop
  split
  · exact ⟨rfl, rfl, ‹_›⟩
  · exact ⟨rfl, rfl, rfl⟩

theorem reports_dispatchRun (paused : Bool) : Reports l c (c.dispatchRun i paused) := by
  unfold RunCycle.dispatchRun
  split
  · exact .of_move rfl (by simp [CyclePhase.isOver]) rfl rfl (by simp)
  · exact .of_move rfl id rfl rfl (by simp)

theorem reports_dispatchReadyTaskAsync (hi : c.sender i = some .ready) (paused : Bool) :
    Reports l c (c.dispatchReadyTaskAsync i t paused) := by
  unfold RunCycle.dispatchReadyTaskAsync
  split
  · exact .of_move rfl id rfl rfl (by simp)
  split
  · exact .of_move rfl id rfl rfl fun _ => .inl (And.right ‹_›)
  split
  · obtain ⟨hr, ho, hf⟩ := triggerFastStop_frame (c := c) (t := t)
    exact .of_fail hi (by simp) hr ho hf (by rw [RunCycle.move, sender_triggerFastStop])
  split
  · exact .of_move rfl id rfl rfl (by simp)
  split
  · exact .of_move rfl id rfl rfl (by simp)
  · exact reports_dispatchRun paused

theorem reports_dispatchDecisionResult (restored paused : Bool) (prepared : Prepared) :
    Reports l c (c.dispatchDecisionResult i restored paused prepared) := by
  cases prepared with
  | skip => exact .of_move rfl id rfl rfl (by simp)
  | run sharedHit =>
    simp only [RunCycle.dispatchDecisionResult]
    split
    · exact .of_move rfl id rfl rfl (by simp)
    · exact reports_dispatchRun paused

/-- When the walker has stopped, no sender is left. -/
theorem gone_of_stopped (h : CycleInv g c) (hwalk : c.walking = .stopped) {place : SenderPlace}
    (hi : c.sender i = some place) : ∃ b, place = .gone b := by
  rcases h.owner hi with hgone | hmem
  · exact hgone
  · simp [h.stopped hwalk] at hmem

theorem endDispatch_of_stopped (h : CycleInv g c) (hwalk : c.walking = .stopped) :
    c.endDispatch.sender = c.sender := by
  funext i
  simp only [RunCycle.endDispatch]
  split
  · obtain ⟨b, hb⟩ := gone_of_stopped h hwalk ‹_›
    cases hb
  · obtain ⟨b, hb⟩ := gone_of_stopped h hwalk ‹_›
    cases hb
  · rfl

theorem dropReceiver_of_not_ready (h : ∀ i, c.sender i ≠ some .ready) : c.dropReceiver.sender = c.sender := by
  funext i
  simp [RunCycle.dropReceiver, h i]

/-- Taking a message from a channel reports nothing. -/
theorem Reports.of_taken {c₀ : RunCycle} (h : Reports l c₀ c') (hr : c₀.receiver = c.receiver)
    (ho : c₀.phase = c.phase) (hf : c₀.anyFailed = c.anyFailed) (hs : c₀.sender = c.sender)
    (hw : c₀.walking = c.walking) (hl : l ≠ .finalize) : Reports l c c' := by
  have hcut : Cut l c₀ c' → Cut l c c' := by
    rintro (h | h | ⟨h, -⟩)
    · exact .inl h
    · exact .inr (.inl h)
    · exact absurd h hl
  refine ⟨fun hc => ?_, fun hc => ?_, fun hc => ?_, fun hc => hs ▸ hf ▸ h.failed hc⟩
  · exact (h.receiver hc).imp (hr ▸ ·) (Or.imp_left hcut)
  · exact (h.isOver hc).imp (ho ▸ ·) (Or.imp hcut (hw ▸ ·))
  · exact (h.refused hc).imp (hs ▸ ·) (Or.imp_right (Or.imp hcut (Or.imp_right
      (And.imp (ho ▸ ·) (hs ▸ ·)))))

theorem reports_of_dispatchStep (h : CycleInv g c) (hstep : c.dispatchStep t l = some c') :
    Reports l c c' := by
  cases l with
  | signal ok =>
    simp only [RunCycle.dispatchStep] at hstep
    split at hstep
    · obtain rfl := Option.some.inj hstep
      exact .of_cut (.inr (.inl rfl)) rfl
    · obtain rfl := Option.some.inj hstep
      exact .of_cut (.inr (.inl rfl)) rfl
    · cases hstep
  | receive paused =>
    simp only [RunCycle.dispatchStep] at hstep
    split at hstep
    · rename_i i ready _ hready
      obtain rfl := Option.some.inj hstep
      have hi : c.sender i = some .ready := h.ready_iff.2 (by simp [hready])
      exact (reports_dispatchReadyTaskAsync (c := { c with ready := ready }) hi paused).of_taken
        rfl rfl rfl rfl rfl (by simp)
    · cases hstep
  | closed =>
    obtain ⟨⟨-, -, hwalk⟩, hstep⟩ := Option.ite_none_right_eq_some.1 hstep
    obtain rfl := Option.some.inj hstep
    exact ⟨.inl, fun _ => .inr (.inr hwalk), fun hj => .inl (endDispatch_of_stopped h hwalk ▸ hj), .inl⟩
  | handle restored paused =>
    simp only [RunCycle.dispatchStep] at hstep
    split at hstep
    · rename_i i results _ _
      split at hstep
      · obtain rfl := Option.some.inj hstep
        exact .of_cut (.inr (.inl rfl)) rfl
      · obtain rfl := Option.some.inj hstep
        exact (reports_dispatchDecisionResult (c := { c with results := results }) restored paused _).of_taken
          rfl rfl rfl rfl rfl (by simp)
      · cases hstep
    · cases hstep
  | resume =>
    simp only [RunCycle.dispatchStep] at hstep
    split at hstep
    · obtain rfl := Option.some.inj hstep
      exact .of_move rfl (by simp [CyclePhase.isOver]) rfl rfl (by simp)
    · cases hstep
  | cancel =>
    simp only [RunCycle.dispatchStep] at hstep
    split at hstep
    · obtain rfl := Option.some.inj hstep
      exact .of_cut (.inl rfl) rfl
    · obtain rfl := Option.some.inj hstep
      exact .of_cut (.inl rfl) rfl
    · cases hstep
  | _ => cases hstep

theorem reports_of_windStep (h : CycleInv g c) (hstep : c.windStep t l = some c') : Reports l c c' := by
  cases l with
  | decide i decision =>
    simp only [RunCycle.windStep, Option.ite_none_right_eq_some] at hstep
    obtain ⟨hi, hstep⟩ := hstep
    split at hstep
    · rename_i hover
      obtain rfl := Option.some.inj hstep
      exact .of_move rfl id rfl rfl fun _ => .inr (.inr ⟨hover, hi⟩)
    · obtain ⟨-, hstep⟩ := Option.ite_none_right_eq_some.1 hstep
      obtain rfl := Option.some.inj hstep
      exact .of_move rfl id rfl rfl (by simp)
  | runDone i success =>
    simp only [RunCycle.windStep, Option.ite_none_right_eq_some] at hstep
    obtain ⟨hi, hstep⟩ := hstep
    split at hstep
    · obtain rfl := Option.some.inj hstep
      exact .of_move rfl id rfl rfl fun _ => .inr (.inl rfl)
    · obtain rfl := Option.some.inj hstep
      exact .of_move rfl id rfl rfl (by simp)
    · obtain rfl := Option.some.inj hstep
      obtain ⟨hr, ho, hf⟩ := triggerFastStop_frame (c := c) (t := t)
      exact .of_fail hi (by simp) hr ho hf (by rw [RunCycle.move, sender_triggerFastStop])
  | finalize =>
    simp only [RunCycle.windStep, Option.ite_none_right_eq_some] at hstep
    obtain ⟨hphase, hstep⟩ := hstep
    obtain rfl := Option.some.inj hstep
    have hover : c.phase.isOver := by simp [hphase, CyclePhase.isOver]
    split
    · rename_i hdrop
      rcases hdrop with hi | hc | hr
      · exact .of_cut (.inr (.inr ⟨rfl, hi⟩)) rfl
      · exact .of_cut (.inl hc) rfl
      · have hready : ∀ j, c.sender j ≠ some .ready := fun j hj => by
          have hmem := h.ready_iff.1 hj
          simp [PlaceInv.receiver h.toPlaceInv (by simpa using hr)] at hmem
        refine ⟨fun _ => .inl (by simpa using hr), fun _ => .inl hover, fun {j} hj => .inl ?_, .inl⟩
        rw [← dropReceiver_of_not_ready hready]
        exact hj
    · exact ⟨.inl, fun _ => .inl hover, .inl, .inl⟩
  | finish =>
    simp only [RunCycle.windStep, Option.ite_none_right_eq_some] at hstep
    obtain ⟨⟨hphase, hwalk⟩, hstep⟩ := hstep
    obtain rfl := Option.some.inj hstep
    have hready : ∀ j, c.sender j ≠ some .ready := fun j hj => by
      obtain ⟨b, hb⟩ := gone_of_stopped h hwalk hj
      cases hb
    refine ⟨fun _ => .inr (.inr rfl), fun _ => .inr (.inr hwalk), fun {j} hj => .inl ?_, .inl⟩
    rw [← dropReceiver_of_not_ready hready]
    exact hj
  | _ => cases hstep

/-! ## The invariant -/

theorem wasInterrupted_of_step (h : r.step rs t l = some r') :
    l = .finalize ∧ r'.wasInterrupted = r.cycle.interrupted ∨ r'.wasInterrupted = r.wasInterrupted := by
  obtain ⟨c, -, rfl⟩ := Option.map_eq_some_iff.1 h
  cases l with
  | finalize => exact .inl ⟨rfl, rfl⟩
  | _ => exact .inr rfl

theorem runResult_of_step (h : r.step rs t l = some r') (he : r.runResult ≠ .ok ()) :
    r'.runResult ≠ .ok () := by
  obtain ⟨c, -, rfl⟩ := Option.map_eq_some_iff.1 h
  cases hd : ReportedCycle.dispatchError c l with
  | none => simpa [hd] using he
  | some e => simp

theorem cycle_of_step (h : r.step rs t l = some r') : r.cycle.step rs t l = some r'.cycle := by
  obtain ⟨c, hc, rfl⟩ := Option.map_eq_some_iff.1 h
  exact hc

theorem finalize_phase {c' : RunCycle} (h : c.step rs t .finalize = some c') :
    c.phase = .ended ∧ c'.phase = .waiting := by
  simp only [RunCycle.step, RunCycle.windStep, Option.ite_none_right_eq_some] at h
  obtain ⟨hphase, h⟩ := h
  obtain rfl := Option.some.inj h
  exact ⟨hphase, rfl⟩

/-- A cut cycle is broken. -/
theorem broken_of_cut (h : r.step rs t l = some r') (hcut : Cut l r.cycle r'.cycle) : Broken r' := by
  obtain ⟨c, hc, rfl⟩ := Option.map_eq_some_iff.1 h
  rcases hcut with hcut | hcut | ⟨rfl, hcut⟩
  · exact .inl hcut
  · obtain ⟨e, he⟩ := Option.isSome_iff_exists.1 hcut
    exact .inr (.inr (by simp [show ReportedCycle.dispatchError c l = some e from he]))
  · exact .inr (.inl hcut)

/-- A broken cycle stays broken. -/
theorem Broken.step (h : Broken r) (hinv : OutcomeInv g r) (hstep : r.step rs t l = some r') : Broken r' := by
  rcases h with h | h | h
  · exact .inl (wasCancelled_of_step (cycle_of_step hstep) h)
  · rcases wasInterrupted_of_step hstep with ⟨rfl, -⟩ | heq
    · have hphase := (finalize_phase (cycle_of_step hstep)).1
      rcases hinv.sampled h with hw | hw <;> cases hphase.symm.trans hw
    · exact .inr (.inl (heq.trans h))
  · exact .inr (.inr (runResult_of_step hstep h))

theorem waits_of_windStep (h : c.phase = .waiting ∨ c.phase = .returned)
    (hstep : c.windStep t l = some c') : c'.phase = c.phase ∨ c'.phase = .returned := by
  cases l with
  | decide i decision =>
    simp only [RunCycle.windStep, Option.ite_none_right_eq_some] at hstep
    obtain ⟨-, hstep⟩ := hstep
    split at hstep
    · obtain rfl := Option.some.inj hstep
      exact .inl rfl
    · obtain ⟨-, hstep⟩ := Option.ite_none_right_eq_some.1 hstep
      obtain rfl := Option.some.inj hstep
      exact .inl rfl
  | runDone i success =>
    simp only [RunCycle.windStep, Option.ite_none_right_eq_some] at hstep
    obtain ⟨-, hstep⟩ := hstep
    split at hstep
    · obtain rfl := Option.some.inj hstep
      exact .inl rfl
    · obtain rfl := Option.some.inj hstep
      exact .inl rfl
    · obtain rfl := Option.some.inj hstep
      exact .inl triggerFastStop_frame.2.1
  | finalize =>
    obtain ⟨hphase, -⟩ := Option.ite_none_right_eq_some.1 hstep
    rcases h with h | h <;> cases hphase.symm.trans h
  | finish =>
    obtain ⟨-, hstep⟩ := Option.ite_none_right_eq_some.1 hstep
    obtain rfl := Option.some.inj hstep
    exact .inr rfl
  | _ => cases hstep

/-- A cycle that waits for its walker waits on, or returns. -/
theorem waits_of_step (h : c.phase = .waiting ∨ c.phase = .returned) (hstep : c.step rs t l = some c') :
    c'.phase = c.phase ∨ c'.phase = .returned := by
  have hover : c.phase.isOver := by rcases h with h | h <;> simp [h, CyclePhase.isOver]
  rcases step_cases c l with heq | heq | heq
  · exact .inl (walkStep_frame (heq ▸ hstep)).1
  · cases (dispatchStep_over hover).symm.trans (heq ▸ hstep)
  · exact waits_of_windStep h (heq ▸ hstep)

/-- What the walker's steps do to the invariant: it refuses a task only where the receiver is gone, and it
stops only where every task is settled or the receiver is gone. -/
structure Walks (g : TaskGraph) (c c' : RunCycle) : Prop where
  refused : ∀ {j}, c'.sender j = some (.gone false) → c.sender j = some (.gone false) ∨ c.receiver = false
  stopped : c'.walking = .stopped → c.receiver = false ∨ ∀ i < g.graph.nodes.length, Terminal (labels c') i

theorem walks_of_walkStep (h : CycleInv g c) (hg : g.graph.Acyclic) (hstep : c.walkStep rs l = some c') :
    Walks g c c' := by
  cases l with
  | takeNext =>
    simp only [RunCycle.walkStep] at hstep
    split at hstep
    · obtain rfl := Option.some.inj hstep
      exact ⟨.inl, fun hs => by cases hs⟩
    · obtain ⟨-, hstep⟩ := Option.ite_none_right_eq_some.1 hstep
      obtain rfl := Option.some.inj hstep
      exact ⟨.inl, fun hs => by cases hs⟩
    · cases hstep
  | send =>
    simp only [RunCycle.walkStep] at hstep
    split at hstep
    · split at hstep
      · rename_i hr
        obtain rfl := Option.some.inj hstep
        exact ⟨fun _ => .inr (by simpa using hr), fun hs => by cases hs⟩
      · obtain ⟨-, hstep⟩ := Option.ite_none_right_eq_some.1 hstep
        obtain rfl := Option.some.inj hstep
        refine ⟨fun {j} hj => .inl ?_, fun hs => by cases hs⟩
        simp only [RunCycle.move, Function.update_apply] at hj
        split at hj
        · cases hj
        · exact hj
    · cases hstep
  | join i b =>
    simp only [RunCycle.walkStep, Option.ite_none_right_eq_some, Option.map_eq_some_iff] at hstep
    obtain ⟨-, w, -, rfl⟩ := hstep
    exact ⟨.inl, fun hs => by cases hs⟩
  | stop =>
    simp only [RunCycle.walkStep, Option.ite_none_right_eq_some] at hstep
    obtain ⟨⟨hwalk, hend⟩, hstep⟩ := hstep
    obtain rfl := Option.some.inj hstep
    refine ⟨.inl, fun _ => ?_⟩
    cases hr : c.receiver with
    | false => exact .inl rfl
    | true =>
      have hterm : ∀ i < g.graph.nodes.length, Terminal (labels c) i := fun i hi =>
        terminal_of_stop h hg hwalk hend hr hi
      exact .inr hterm
  | _ => cases hstep

/-- A used sender stays used. -/
theorem gone_of_step {b : Bool} (h : CycleInv g c) (hstep : c.step rs t l = some c')
    (hi : c.sender i = some (.gone b)) : c'.sender i = some (.gone b) := by
  have hpass : Passes t c.anyFailed i (c.sender i) (c'.sender i) := passes_of_step h hstep i
  rw [hi] at hpass
  exact hpass.of_gone

theorem lt_of_sender {place : SenderPlace} (h : CycleInv g c) (hi : c.sender i = some place)
    (hplace : ∀ b, place ≠ .gone b) : i < g.graph.nodes.length := by
  rcases h.owner hi with ⟨b, hb⟩ | hmem
  · exact absurd hb (hplace b)
  · exact h.state.lt_of_lookup (h.joined hmem).1

theorem OutcomeInv.sampled_of_step (h : OutcomeInv g r) (hstep : r.step rs t l = some r')
    (hr : r'.wasInterrupted = true) : r'.cycle.phase = .waiting ∨ r'.cycle.phase = .returned := by
  rcases wasInterrupted_of_step hstep with ⟨rfl, -⟩ | heq
  · exact .inl (finalize_phase (cycle_of_step hstep)).2
  · have hphase := h.sampled (heq.symm.trans hr)
    rcases waits_of_step hphase (cycle_of_step hstep) with hp | hp
    · rwa [hp]
    · exact .inr hp

/-- The steps of the walker. -/
theorem OutcomeInv.walk (h : OutcomeInv g r) (hg : g.graph.Acyclic) (hstep : r.step rs t l = some r')
    (hwalk : r.cycle.walkStep rs l = some r'.cycle) : OutcomeInv g r' := by
  have hcycle := cycle_of_step hstep
  have hwalks : Walks g r.cycle r'.cycle := walks_of_walkStep h.cycle hg hwalk
  have hbroken : Broken r → Broken r' := fun hb => hb.step h hstep
  obtain ⟨hphase, hrecv, hgoing⟩ := walkStep_frame hwalk
  have hfailed := (flags_of_walkStep hwalk).1
  -- while the walker still moves, the cycle has not returned
  have hcut : r.cycle.receiver = false → Broken r' := fun hr => by
    rcases h.receiver hr with hb | hret
    · exact hbroken hb
    · exact absurd (h.cycle.returned hret).1 hgoing
  refine ⟨h.cycle.step hcycle, h.answered.step h.cycle hcycle, h.sampled_of_step hstep, fun ha => ?_,
    fun {j} hj => ?_, fun hr => .inl (hcut (hrecv.symm.trans hr)), fun ho => ?_, fun hs => ?_⟩
  · obtain ⟨i, hlt, hi⟩ := h.failed (hfailed.symm.trans ha)
    exact ⟨i, hlt, gone_of_step h.cycle hcycle hi⟩
  · rcases hwalks.refused hj with hold | hr
    · exact (h.refused hold).imp (hfailed.trans ·) hbroken
    · exact .inr (hcut hr)
  · exact .inl (((h.isOver (hphase ▸ ho)).resolve_right hgoing) |> hbroken)
  · exact (hwalks.stopped hs).imp_left hcut

/-- The steps of the loop and of the end of the cycle. -/
theorem OutcomeInv.rest (h : OutcomeInv g r) (hpanic : NoPanic r l) (hstep : r.step rs t l = some r')
    (hkeeps : Keeps r.cycle r'.cycle) (hreports : Reports l r.cycle r'.cycle) : OutcomeInv g r' := by
  have hcycle := cycle_of_step hstep
  have hbroken : Broken r → Broken r' := fun hb => hb.step h hstep
  have hcut : Cut l r.cycle r'.cycle → Broken r' := broken_of_cut hstep
  have hlabels : labels r'.cycle = labels r.cycle := by
    unfold labels
    rw [hkeeps.walker]
  refine ⟨h.cycle.step hcycle, h.answered.step h.cycle hcycle, h.sampled_of_step hstep, fun ha => ?_,
    fun {j} hj => ?_, fun hr => ?_, fun ho => ?_, fun hs => ?_⟩
  · rcases hreports.failed ha with hold | hnew
    · obtain ⟨i, hlt, hi⟩ := h.failed hold
      exact ⟨i, hlt, gone_of_step h.cycle hcycle hi⟩
    · obtain ⟨i, place, hi, hplace, hgone⟩ := hnew
      exact ⟨i, lt_of_sender h.cycle hi hplace, hgone⟩
  · rcases hreports.refused hj with hold | hf | hc | rfl | ⟨hover, hdeciding⟩
    · exact (h.refused hold).imp hkeeps.anyFailed hbroken
    · exact .inl hf
    · exact .inr (hcut hc)
    · exact absurd hpanic id
    · rcases h.isOver hover with hb | hstopped
      · exact .inr (hbroken hb)
      · obtain ⟨b, hb⟩ := gone_of_stopped h.cycle hstopped hdeciding
        cases hb
  · rcases hreports.receiver hr with hold | hc | hret
    · rcases h.receiver hold with hb | hret
      · exact .inl (hbroken hb)
      · refine .inr ((waits_of_step (.inr hret) hcycle).elim (fun heq => heq.trans hret) id)
    · exact .inl (hcut hc)
    · exact .inr hret
  · rw [hkeeps.walking]
    rcases hreports.isOver ho with hold | hc | hstopped
    · exact (h.isOver hold).imp_left hbroken
    · exact .inl (hcut hc)
    · exact .inr hstopped
  · rw [hlabels]
    exact (h.stopped (hkeeps.walking.symm.trans hs)).imp_left hbroken

theorem OutcomeInv.step (h : OutcomeInv g r) (hg : g.graph.Acyclic) (hpanic : NoPanic r l)
    (hstep : r.step rs t l = some r') : OutcomeInv g r' := by
  have hcycle := cycle_of_step hstep
  rcases step_cases r.cycle l with heq | heq | heq
  · exact h.walk hg hstep (heq ▸ hcycle)
  · exact h.rest hpanic hstep (keeps_of_dispatchStep (heq ▸ hcycle))
      (reports_of_dispatchStep h.cycle (heq ▸ hcycle))
  · exact h.rest hpanic hstep (keeps_of_windStep (heq ▸ hcycle))
      (reports_of_windStep h.cycle (heq ▸ hcycle))

theorem OutcomeInv.of_reach (h : Reach (reportedSystem ts rs g t) NoPanic r) :
    g.graph.Acyclic ∧ OutcomeInv g r := by
  refine h.invariant (I := fun r => g.graph.Acyclic ∧ OutcomeInv g r) ?_
    fun s l s' _ hinv hpanic hstep => ⟨hinv.1, hinv.2.step hinv.1 hpanic hstep⟩
  rintro _ ⟨c, hc, rfl⟩
  have hreach : Reachable (cycleSystem ts rs g t) c := .init hc
  obtain ⟨w, hw, rfl⟩ := hc
  refine ⟨acyclic_of_reachable hreach, .of_reachable hreach, .of_reachable hreach, ?_, ?_, ?_, ?_, ?_, ?_⟩
  · rintro ⟨⟩
  · rintro ⟨⟩
  · rintro j ⟨⟩
  · rintro ⟨⟩
  · intro ho
    simp [ReportedCycle.init, RunCycle.init, CyclePhase.isOver] at ho
  · rintro ⟨⟩

/-! ## The result -/

theorem finalizeAndReport_success : (∃ b, r.finalizeAndReport = .ok (.Success, b)) ↔
    r.cycle.anyFailed = false ∧ ¬ Broken r := by
  unfold ReportedCycle.finalizeAndReport Broken
  cases hc : r.cycle.wasCancelled <;> cases hi : r.wasInterrupted <;> cases hf : r.cycle.anyFailed <;>
    cases hr : r.runResult <;> simp [computeCycleOutcome, reportRunOutcome]

theorem runTasks_ok (hc : r.cycle.wasCancelled = false) :
    r.runTasks = .ok () ↔ ∃ b, r.finalizeAndReport = .ok (.Success, b) := by
  unfold ReportedCycle.runTasks ReportedCycle.finalizeAndReport
  cases hi : r.wasInterrupted <;> cases hf : r.cycle.anyFailed <;>
    cases hr : r.runResult <;> simp [computeCycleOutcome, reportRunOutcome, hc]

/-- A walker that has settled every task has had every task answered, all with success if none with
failure. -/
theorem succeeded_of_terminal (h : OutcomeInv g r) (hg : g.graph.Acyclic)
    (hterm : ∀ i < g.graph.nodes.length, Terminal (labels r.cycle) i)
    (hnone : ∀ i, r.cycle.sender i ≠ some (.gone false)) {i : Nat} (hi : i < g.graph.nodes.length) :
    r.cycle.sender i = some (.gone true) := by
  have hfailed : ∀ j, labels r.cycle j ≠ some .Failed := fun j hj => hnone j (h.answered j false hj)
  obtain ⟨s, hs, hterminal⟩ := hterm i hi
  cases s with
  | Succeeded => exact h.answered i true hs
  | Failed => exact absurd hs (hfailed i)
  | Skipped =>
    obtain ⟨j, -, hj⟩ := h.cycle.state.consistent.failed_below hg.wellFounded hs
    exact absurd hj (hfailed j)
  | _ => cases hterminal

/-- Where no runner panics, a cycle that has returned reports success exactly if every task of the graph
was answered with success and the cycle was neither cancelled nor interrupted, nor has its loop failed. A
cycle that was not cancelled makes the command succeed exactly then. -/
theorem cycle_succeeds_iff (h : Reach (reportedSystem ts rs g t) NoPanic r)
    (hret : r.cycle.phase = .returned) :
    ((∃ b, r.finalizeAndReport = .ok (.Success, b)) ↔
      (∀ i < g.graph.nodes.length, r.cycle.sender i = some (.gone true)) ∧ r.cycle.wasCancelled = false ∧
        r.wasInterrupted = false ∧ r.runResult = .ok ()) ∧
    (r.cycle.wasCancelled = false → (r.runTasks = .ok () ↔
      (∀ i < g.graph.nodes.length, r.cycle.sender i = some (.gone true)) ∧
        r.wasInterrupted = false ∧ r.runResult = .ok ())) := by
  obtain ⟨hg, hinv⟩ := OutcomeInv.of_reach h
  have hwhole : ¬ Broken r ↔ r.cycle.wasCancelled = false ∧ r.wasInterrupted = false ∧ r.runResult = .ok () := by
    simp [Broken]
  have hiff : (∃ b, r.finalizeAndReport = .ok (.Success, b)) ↔
      (∀ i < g.graph.nodes.length, r.cycle.sender i = some (.gone true)) ∧ ¬ Broken r := by
    rw [finalizeAndReport_success]
    refine and_congr_left fun hb => ⟨fun hf i hi => ?_, fun hall => ?_⟩
    · refine succeeded_of_terminal hinv hg ?_ ?_ hi
      · exact (hinv.stopped (hinv.cycle.returned hret).1).resolve_left hb
      · intro j hj
        rcases hinv.refused hj with ha | hbad
        · cases hf.symm.trans ha
        · exact hb hbad
    · by_contra ha
      obtain ⟨i, hlt, hi⟩ := hinv.failed (by simpa using ha)
      simp [hall i hlt] at hi
  refine ⟨hiff.trans (and_congr_right fun _ => hwhole), fun hc => ?_⟩
  rw [runTasks_ok hc, hiff, hwhole]
  simp [hc]

/-- Both of two tasks are skipped. -/
theorem cycle_succeeds_pair : ∃ r, Reach (reportedSystem .kahn .id pair pairTasks) NoPanic r ∧
    r.cycle.phase = .returned ∧ r.runTasks = .ok () ∧
    ∀ i < pair.graph.nodes.length, r.cycle.sender i = some (.gone true) := by
  let ls := emitted ++ skipped 1 ++ skipped 0 ++ [.stop, .closed, .finalize, .finish]
  let S := reportedSystem .kahn .id pair pairTasks
  have hview : ((WalkerState.fromGraph .kahn .id pair).bind fun w =>
      S.run (fun _ _ => True) (.init (.init .id w)) ls).map (fun r =>
        (r.cycle.phase, r.cycle.wasCancelled, r.runTasks)) = some (.returned, false, .ok ()) := by decide
  obtain ⟨r, hr, hend⟩ := Option.map_eq_some_iff.1 hview
  obtain ⟨w, hw, hrun⟩ := Option.bind_eq_some_iff.1 hr
  simp only [Prod.mk.injEq] at hend
  obtain ⟨hphase, hcancelled, hok⟩ := hend
  have hreach : Reach S NoPanic r := by
    refine Reach.run_of_labels (.init ⟨_, ⟨w, hw, rfl⟩, rfl⟩) (fun s l hl _ => ?_) hrun
    simp only [ls, emitted, skipped, List.cons_append, List.nil_append, List.mem_cons, List.not_mem_nil,
      or_false] at hl
    rcases hl with rfl | rfl | rfl | rfl | rfl | rfl | rfl | rfl | rfl | rfl | rfl | rfl | rfl | rfl | rfl |
      rfl | rfl | rfl | rfl <;> trivial
  exact ⟨r, hreach, hphase, hok, (((cycle_succeeds_iff hreach hphase).2 hcancelled).1 hok).1⟩

end Luchta.Proof.Cycle
