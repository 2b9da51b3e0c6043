import Luchta.Proof.Cycle.WindDown

/-!
# Where a cycle hangs

* `Stranded.step`: a task that can still succeed does not get past the ready channel once nobody takes
  its messages.
* `cycle_winds_down`: the condition under which a cycle winds down is exact.
* `cycle_hangs`: a cycle of two tasks whose loop fails to listen for signals.
-/

namespace Luchta.Proof.Cycle

open Luchta.Framework Luchta.Impl Luchta.Spec
open Luchta.Proof.Walker (StateInv toEmit sendingNode settle_inv setRunning_labels)
open Relation (TransGen)

variable {g : TaskGraph} {rs : RandomState} {t : CycleTasks} {c c' : RunCycle} {i : Nat}

/-- Whatever the task depends on may still succeed. -/
def Hopeful (g : TaskGraph) (c : RunCycle) (i : Nat) : Prop :=
  ¬ Doomed c i ∧ ∀ j, TransGen g.graph.Edge i j → ¬ Doomed c j

/-- The cycle waits, with the receiver of the ready channel, while a task that may succeed is not yet
taken from that channel. -/
structure Stranded (g : TaskGraph) (i : Nat) (c : RunCycle) : Prop extends CycleInv g c where
  waiting : c.phase = .waiting
  alive : c.receiver = true
  walking : c.walking ≠ .stopped
  hopeful : Hopeful g c i
  place : labels c i = some .Pending ∨ sendingNode c.walking = some i ∨ c.sender i = some .ready

/-- A task is not made hopeless by one that already was. -/
theorem Hopeful.of_doomed (h : Hopeful g c i)
    (hd : ∀ j, Doomed c' j → Doomed c j ∨ ∃ k, TransGen g.graph.Edge j k ∧ Doomed c k) :
    Hopeful g c' i := by
  refine ⟨fun hi => ?_, fun j hij hj => ?_⟩
  · rcases hd i hi with hi | ⟨k, hk, hdk⟩
    · exact h.1 hi
    · exact h.2 k hk hdk
  · rcases hd j hj with hj | ⟨k, hk, hdk⟩
    · exact h.2 j hij hj
    · exact h.2 k (hij.trans hk) hdk

theorem Doomed.congr (h : Doomed c' i) (hlab : labels c' i = labels c i)
    (hsender : c'.sender i = c.sender i) : Doomed c i := by
  unfold Doomed Lost at h ⊢
  rwa [hlab, hsender] at h

/-- A running task whose sender is elsewhere is not doomed. -/
theorem not_doomed (hrun : labels c i = some .Running) (hdeciding : c.sender i ≠ some .deciding)
    (hgone : c.sender i ≠ some (.gone false)) : ¬ Doomed c i := by
  rintro ((hl | hl) | ⟨-, hs | hs⟩)
  · cases hl.symm.trans hrun
  · cases hl.symm.trans hrun
  · exact hdeciding hs
  · exact hgone hs

namespace Stranded

theorem takeNext (h : Stranded g i c) (hstep : c.walkStep rs .takeNext = some c')
    (hinv : CycleInv g c') : Stranded g i c' := by
  simp only [RunCycle.walkStep] at hstep
  split at hstep
  · rename_i hwalk
    obtain rfl := Option.some.inj hstep
    refine ⟨hinv, h.waiting, h.alive, by simp, h.hopeful, ?_⟩
    rcases h.place with hp | hs | hr
    · exact .inl hp
    · simp [hwalk, sendingNode] at hs
    · exact .inr (.inr hr)
  · rename_i j ready hwalk
    obtain ⟨-, hstep⟩ := Option.ite_none_right_eq_some.1 hstep
    obtain rfl := Option.some.inj hstep
    have hp : labels c j = some .Pending := (h.toEmit_ready (by simp [hwalk, toEmit])).1
    have hlab := setRunning_labels hp
    refine ⟨hinv, h.waiting, h.alive, by simp, h.hopeful.of_doomed fun k hk => .inl ?_, ?_⟩
    · by_cases hkj : k = j
      · subst hkj
        refine absurd hk (not_doomed (by simp [labels, hlab]) ?_ ?_)
        · simp [h.pending hp]
        · simp [h.pending hp]
      · exact hk.congr (by simp [labels, hlab, hkj]) rfl
    · rcases h.place with hi | hs | hr
      · by_cases hij : i = j
        · exact .inr (.inl (congrArg some hij.symm))
        · exact .inl (by simpa [labels, hlab, hij] using hi)
      · simp [hwalk, sendingNode] at hs
      · exact .inr (.inr hr)
  · cases hstep

theorem send (h : Stranded g i c) (hstep : c.walkStep rs .send = some c') (hinv : CycleInv g c') :
    Stranded g i c' := by
  simp only [RunCycle.walkStep] at hstep
  split at hstep
  · rename_i j ready hwalk
    obtain ⟨hrun, hnone, -⟩ := h.sending (i := j) (by simp [hwalk, sendingNode])
    rw [if_neg (by simp [h.alive])] at hstep
    obtain ⟨-, hstep⟩ := Option.ite_none_right_eq_some.1 hstep
    obtain rfl := Option.some.inj hstep
    have hself : (c.move j .ready).sender j = some .ready := by simp [RunCycle.move]
    have hsender : ∀ {k}, k ≠ j → (c.move j .ready).sender k = c.sender k :=
      fun hk => Function.update_of_ne hk _ _
    refine ⟨hinv, h.waiting, h.alive, by simp, h.hopeful.of_doomed fun k hk => .inl ?_, ?_⟩
    · by_cases hkj : k = j
      · subst hkj
        exact absurd hk (not_doomed hrun (by simp [hself]) (by simp [hself]))
      · exact hk.congr rfl (hsender hkj)
    · rcases h.place with hp | hs | hr
      · exact .inl hp
      · obtain rfl : j = i := by simpa [hwalk, sendingNode] using hs
        exact .inr (.inr hself)
      · refine .inr (.inr ((hsender ?_).trans hr))
        rintro rfl
        cases hnone.symm.trans hr
  · cases hstep

theorem join {j : Nat} {b : Bool} (hg : g.graph.Acyclic) (h : Stranded g i c)
    (hstep : c.walkStep rs (.join j b) = some c') (hinv : CycleInv g c') : Stranded g i c' := by
  simp only [RunCycle.walkStep, Option.ite_none_right_eq_some, Option.map_eq_some_iff] at hstep
  obtain ⟨⟨hwalk, -, hj, hb⟩, w, hw, rfl⟩ := hstep
  have hrun := (h.joined hj).1
  obtain ⟨w', hw', hstate, hself, hother⟩ := settle_inv h.state hrun b
  obtain rfl := Option.some.inj (hw'.symm.trans hw)
  have hfailed : ∀ m, w'.states.lookup m = some .Failed → Doomed c m := by
    intro m hm
    by_cases hmj : m = j
    · subst hmj
      cases b with
      | true => cases hself.symm.trans hm
      | false => exact .inr ⟨hrun, .inr hb⟩
    · rcases hother m hmj with heq | ⟨-, hs⟩
      · exact .inl (.inl (heq.symm.trans hm))
      · cases hs.symm.trans hm
  have hopeful : Hopeful g { c with
      walker := w'
      walking := .enqueue (w'.takeReadyNodes rs)
      joinSet := c.joinSet.erase j } i := by
    refine h.hopeful.of_doomed fun k hk => ?_
    rcases hk with (hf | hs) | ⟨hr, hs⟩
    · exact .inl (hfailed k hf)
    · obtain ⟨m, hkm, hm⟩ := hstate.consistent.failed_below hg.wellFounded hs
      exact .inr ⟨m, hkm, hfailed m hm⟩
    · have hkj : k ≠ j := by
        rintro rfl
        rw [labels, hself] at hr
        cases b <;> simp at hr
      rcases hother k hkj with heq | ⟨-, hskip⟩
      · exact .inl (.inr ⟨heq.symm.trans hr, hs⟩)
      · cases hskip.symm.trans hr
  refine ⟨hinv, h.waiting, h.alive, by simp, hopeful, ?_⟩
  rcases h.place with hp | hs | hr
  · have hij : i ≠ j := by
      rintro rfl
      cases hp.symm.trans hrun
    rcases hother i hij with heq | ⟨-, hskip⟩
    · exact .inl (heq.trans hp)
    · exact absurd (.inl (.inr hskip)) hopeful.1
  · simp [hwalk, sendingNode] at hs
  · exact .inr (.inr hr)

/-- The walker cannot stop: a task is left, and waits for none but others that are left. -/
theorem not_stop (hg : g.graph.Acyclic) (h : Stranded g i c) : c.walkStep rs .stop = none := by
  simp only [RunCycle.walkStep, ite_eq_right_iff, reduceCtorEq, imp_false, not_and, not_or]
  intro hwalk
  have hjoin : ∀ j, c.sender j = some .ready → j ∈ c.joinSet := fun j hj => by
    rcases h.owner hj with ⟨b, hb⟩ | hmem
    · cases hb
    · exact hmem
  refine ⟨fun hcount => ?_, fun hnil => ?_⟩
  · have hterm := h.state.total_le_iff.1 hcount i
    rcases h.place with hp | hs | hr
    · obtain ⟨s, hs, ht⟩ := hterm (h.state.lt_of_lookup hp)
      cases hs.symm.trans hp
      cases ht
    · simp [hwalk, sendingNode] at hs
    · have hrun := (h.joined (hjoin i hr)).1
      obtain ⟨s, hs, ht⟩ := hterm (h.state.lt_of_lookup hrun)
      cases hs.symm.trans hrun
      cases ht
  · rcases h.place with hp | hs | hr
    · have hrun : ∀ j, labels c j ≠ some .Running := fun j hj => by
        simpa [hnil, hwalk, sendingNode] using h.running h.alive hj
      obtain ⟨j, hj⟩ := h.state.consistent.exists_ready hg.wellFounded hrun hp
      simpa [hwalk, toEmit] using h.ready h.alive hj
    · simp [hwalk, sendingNode] at hs
    · simpa [hnil] using hjoin i hr

theorem moves {j : Nat} {b : Bool} {old : SenderPlace} (h : Stranded g i c) (hinv : CycleInv g c')
    (hm : Moves j (.gone b) c c') (hj : c.sender j = some old) (hgone : ∀ b, old ≠ .gone b)
    (hready : old ≠ .ready) (hb : b = false → Doomed c j) (hphase : c'.phase = c.phase) :
    Stranded g i c' := by
  have hlab : labels c' = labels c := (hm.follows hj hgone).labels_eq
  have hsender : ∀ {k}, k ≠ j → c'.sender k = c.sender k := fun hk => by
    rw [hm.sender, Function.update_of_ne hk]
  have hself : c'.sender j = some (.gone b) := by rw [hm.sender, Function.update_self]
  refine ⟨hinv, hphase.trans h.waiting, hm.receiver.trans h.alive, hm.walking ▸ h.walking,
    h.hopeful.of_doomed fun k hk => .inl ?_, ?_⟩
  · by_cases hkj : k = j
    · subst hkj
      rcases hk with hl | ⟨-, hs | hs⟩
      · exact .inl (by rwa [hlab] at hl)
      · cases hself.symm.trans hs
      · exact hb (SenderPlace.gone.inj (Option.some.inj (hself.symm.trans hs)))
    · exact hk.congr (congrFun hlab k) (hsender hkj)
  · rw [hlab, hm.walking]
    refine h.place.imp_right fun hp => hp.imp_right fun hr => ?_
    rw [hsender, hr]
    rintro rfl
    exact hready (Option.some.inj (hj.symm.trans hr))

/-- The step of a runner that is done and has succeeded, and any step of another task. -/
def Gentle : CycleLabel → Prop
  | .runDone _ success => success = some true
  | _ => True

theorem step {l : CycleLabel} (hg : g.graph.Acyclic) (h : Stranded g i c) (hl : Gentle l)
    (hstep : c.step rs t l = some c') : Stranded g i c' := by
  have hinv : CycleInv g c' := h.toCycleInv.step hstep
  have hover : c.phase.isOver := by simp [h.waiting, CyclePhase.isOver]
  cases l with
  | takeNext =>
    simp only [RunCycle.step] at hstep
    exact h.takeNext hstep hinv
  | send =>
    simp only [RunCycle.step] at hstep
    exact h.send hstep hinv
  | join j b =>
    simp only [RunCycle.step] at hstep
    exact h.join hg hstep hinv
  | stop =>
    simp only [RunCycle.step, h.not_stop hg] at hstep
    cases hstep
  | signal _ | receive _ | closed | handle _ _ | resume | cancel =>
    simp only [RunCycle.step, dispatchStep_over hover] at hstep
    cases hstep
  | decide j decision =>
    simp only [RunCycle.step, RunCycle.windStep, Option.ite_none_right_eq_some, hover, if_true] at hstep
    obtain ⟨hj, hstep⟩ := hstep
    obtain rfl := Option.some.inj hstep
    have ht : Takes j c c := .refl h.toPlaceInv hj (by simp)
    refine h.moves hinv (b := false) ht.move hj (by simp) (by simp) (fun _ => .inr ⟨?_, .inl hj⟩) rfl
    rcases h.owner hj with ⟨b, hb⟩ | hmem
    · cases hb
    · exact (h.joined hmem).1
  | runDone j success =>
    obtain rfl : success = some true := hl
    simp only [RunCycle.step, RunCycle.windStep, Option.ite_none_right_eq_some] at hstep
    obtain ⟨hj, hstep⟩ := hstep
    obtain rfl := Option.some.inj hstep
    have ht : Takes j c c := .refl h.toPlaceInv hj (by simp)
    exact h.moves hinv (b := true) ht.move hj (by simp) (by simp) (by simp) rfl
  | finalize =>
    simp [RunCycle.step, RunCycle.windStep, h.waiting] at hstep
  | finish =>
    simp [RunCycle.step, RunCycle.windStep, h.walking] at hstep

/-- A cycle with a stranded task is at rest, or can go on in such a way that the task stays stranded. -/
theorem goes_on {ts : Toposort TaskNode} (hg : g.graph.Acyclic) (h : Stranded g i c) :
    Quiet (cycleSystem ts rs g t) (fun _ => True) c ∨
      ∃ l c', (True ∧ True) ∧ (cycleSystem ts rs g t).step c l = some c' ∧ Stranded g i c' := by
  by_cases hquiet : Quiet (cycleSystem ts rs g t) (fun _ => True) c
  · exact .inl hquiet
  obtain ⟨l, hl⟩ : ∃ l, c.step rs t l ≠ none := by
    by_contra hnone
    exact hquiet fun l _ => not_not.1 fun hl => hnone ⟨l, hl⟩
  obtain ⟨l, c', hl, hstep⟩ : ∃ l c', Gentle l ∧ c.step rs t l = some c' := by
    by_cases hgentle : Gentle l
    · obtain ⟨c', hstep⟩ := Option.ne_none_iff_exists'.1 hl
      exact ⟨l, c', hgentle, hstep⟩
    · cases l with
      | runDone j success =>
        by_cases hj : c.sender j = some .running
        · exact ⟨.runDone j (some true), _, rfl, if_pos hj⟩
        · exact absurd (if_neg hj) hl
      | _ => exact absurd trivial hgentle
  exact .inr ⟨l, c', ⟨trivial, trivial⟩, hstep, h.step hg hl hstep⟩

end Stranded

/-! ## The condition is exact -/

/-- What is left behind where the receiver of the ready channel outlives the dispatch phase. -/
theorem exists_hopeful (h : CycleInv g c) (hidle : ¬ Idle g c) :
    ∃ i, Hopeful g c i ∧
      (labels c i = some .Pending ∨ sendingNode c.walking = some i ∨ c.sender i = some .ready) := by
  have hstarted : ∀ {i}, labels c i = some .Running → ∀ j, TransGen g.graph.Edge i j → ¬ Doomed c j :=
    fun hrun j hij hj => hj.not_succeeded (h.state.consistent.succeeded_below
      (fun k hk => h.state.consistent.started (.inl hrun) hk) hij)
  by_cases hready : c.ready = []
  · by_cases hsending : sendingNode c.walking = none
    · by_contra hnone
      refine hidle ⟨hready, hsending, fun i hi => ?_⟩
      by_contra hbarred
      refine hnone ⟨i, ⟨?_, fun j hij hj => hbarred ⟨j, hij, hj⟩⟩, .inl hi⟩
      rintro ((hl | hl) | ⟨hl, -⟩) <;> cases hl.symm.trans hi
    · obtain ⟨i, hi⟩ := Option.ne_none_iff_exists'.1 hsending
      obtain ⟨hrun, hnone, -⟩ := h.sending hi
      exact ⟨i, ⟨not_doomed hrun (by simp [hnone]) (by simp [hnone]), hstarted hrun⟩, .inr (.inl hi)⟩
  · obtain ⟨i, hmem⟩ := List.exists_mem_of_ne_nil _ hready
    have hi : c.sender i = some .ready := h.ready_iff.2 hmem
    have hrun : labels c i = some .Running := by
      rcases h.owner hi with ⟨b, hb⟩ | hj
      · cases hb
      · exact (h.joined hj).1
    exact ⟨i, ⟨not_doomed hrun (by simp [hi]) (by simp [hi]), hstarted hrun⟩, .inr (.inr hi)⟩

/-- A cycle that goes on from a disorderly end of its dispatch phase may never return, even where every
task that was started finishes. -/
theorem not_settles_of_disorderly {ts : Toposort TaskNode}
    (h : Reachable (cycleSystem ts rs g t) c) (hphase : c.phase = .ended)
    (hbad : ¬ Orderly g c .finalize) :
    ¬ Settles (cycleSystem ts rs g t) (fun _ _ => True) (fun _ => True)
      (fun c => c.phase = .returned ∧ WoundDown c) c := by
  have hinv : CycleInv g c := .of_reachable h
  have hg : g.graph.Acyclic := acyclic_of_reachable h
  simp only [Orderly, not_or] at hbad
  obtain ⟨hinterrupted, hcancelled, hrecv, hwalk, hidle⟩ := hbad
  have hstep : c.step rs t .finalize = some { c with phase := .waiting } := by
    simp only [RunCycle.step, RunCycle.windStep, hphase, if_true]
    rw [if_neg]
    simp [hinterrupted, hcancelled, hrecv]
  have hafter := hinv.step hstep
  obtain ⟨i, hhopeful, hplace⟩ := exists_hopeful hinv hidle
  have hstranded : Stranded g i { c with phase := .waiting } :=
    ⟨hafter, rfl, by simpa using hrecv, hwalk, hhopeful, hplace⟩
  refine not_settles (I := fun c' => c' = c ∨ Stranded g i c') (fun c' hc' => ?_) (fun c' hc' => ?_)
    (.inl rfl)
  · rcases hc' with rfl | hc'
    · exact .inr ⟨.finalize, _, ⟨trivial, trivial⟩, hstep, .inr hstranded⟩
    · rcases hc'.goes_on hg with hquiet | ⟨l, u, -, hstep, hu⟩
      · exact .inl hquiet
      · exact .inr ⟨l, u, ⟨trivial, trivial⟩, hstep, .inr hu⟩
  · rintro ⟨hr, -⟩
    rcases hc' with rfl | hc'
    · cases hphase.symm.trans hr
    · cases hc'.waiting.symm.trans hr

/-- A cycle that has returned has wound down. In orderly runs, once the dispatch phase has ended, in
whatever way, the cycle returns as soon as its decisions are made and its runners are done; and after a
disorderly end of that phase it may not. -/
theorem cycle_winds_down {ts : Toposort TaskNode} :
    (∀ c, Reachable (cycleSystem ts rs g t) c → c.phase = .returned → WoundDown c) ∧
    (∀ c, Reach (cycleSystem ts rs g t) (Orderly g) c → c.phase.isOver →
      Settles (cycleSystem ts rs g t) (Orderly g) (fun _ => True)
        (fun c => c.phase = .returned ∧ WoundDown c) c) ∧
    ∀ c, Reachable (cycleSystem ts rs g t) c → c.phase = .ended → ¬ Orderly g c .finalize →
      ¬ Settles (cycleSystem ts rs g t) (fun _ _ => True) (fun _ => True)
        (fun c => c.phase = .returned ∧ WoundDown c) c :=
  ⟨fun _ h => (CycleInv.of_reachable h).woundDown, fun _ => settles_of_orderly,
    fun _ => not_settles_of_disorderly⟩

/-- Two tasks that do not depend on each other. -/
def pair : TaskGraph :=
  .ofNodes [⟨⟨⟨"app"⟩, ⟨"build"⟩⟩, 1⟩, ⟨⟨⟨"lib"⟩, ⟨"build"⟩⟩, 2⟩] [] ∅ (by decide) (by simp)

/-- Both tasks have a command and are cached. -/
def pairTasks : CycleTasks where
  tasksToRun := fun _ => true
  invalid := fun _ => false
  hasCommand := fun _ => true
  skipEnabled := fun _ => true
  continueOnFailure := false
  resultCapacity := 4

def pairCycle : System RunCycle CycleLabel := cycleSystem .kahn .id pair pairTasks

/-- The walker emits both tasks, the heavier one first. -/
def emitted : List CycleLabel := [.takeNext, .send, .takeNext, .send, .takeNext]

/-- The loop takes the next task, and its cached outcome is up to date. -/
def skipped (i : Nat) : List CycleLabel :=
  [.receive false, .decide i (some .skip), .handle false false, .join i true, .takeNext]

/-- What a run of the two tasks gets to. -/
theorem pair_reach {α : Type} {view : RunCycle → α} {a : α} {ls : List CycleLabel}
    (h : ((WalkerState.fromGraph .kahn .id pair).bind fun w =>
      pairCycle.run (fun _ _ => True) (.init .id w) ls).map view = some a) :
    ∃ w c, pairCycle.init (.init .id w) ∧ pairCycle.run (fun _ _ => True) (.init .id w) ls = some c ∧
      view c = a := by
  obtain ⟨c, hc, hview⟩ := Option.map_eq_some_iff.1 h
  obtain ⟨w, hw, hrun⟩ := Option.bind_eq_some_iff.1 hc
  exact ⟨w, c, ⟨w, hw, rfl⟩, hrun, hview⟩

/-- The loop fails to listen for signals while both messages are in the channel. -/
theorem pair_disorderly : ∃ c, Reachable pairCycle c ∧ c.phase = .ended ∧ ¬ Orderly pair c .finalize := by
  obtain ⟨w, c, hinit, hrun, hview⟩ := @pair_reach _ (fun c => (c.phase, c.receiver, c.ready, c.walking,
    c.interrupted, c.wasCancelled)) (.ended, true, [1, 0], .waiting, false, false)
    (emitted ++ [.signal false]) (by decide)
  simp only [Prod.mk.injEq] at hview
  obtain ⟨hphase, hrecv, hready, hwalk, hinterrupted, hcancelled⟩ := hview
  refine ⟨c, Reach.run (.init hinit) hrun, hphase, ?_⟩
  rintro (h | h | h | h | h)
  · cases hinterrupted.symm.trans h
  · cases hcancelled.symm.trans h
  · cases hrecv.symm.trans h
  · cases hwalk.symm.trans h
  · cases hready.symm.trans h.ready

/-- Both tasks are skipped and the cycle returns; or it is cancelled while one task is being decided on and
the other one waits in the channel; or the loop fails. -/
theorem cycle_winds_down_pair :
    (∃ c, Reachable pairCycle c ∧ c.phase = .returned ∧ WoundDown c) ∧
    (∃ c, Reach pairCycle (Orderly pair) c ∧ c.wasCancelled = true ∧
      Settles pairCycle (Orderly pair) (fun _ => True) (fun c => c.phase = .returned ∧ WoundDown c) c) ∧
    ∃ c, Reachable pairCycle c ∧ c.phase = .ended ∧
      ¬ Settles pairCycle (fun _ _ => True) (fun _ => True)
        (fun c => c.phase = .returned ∧ WoundDown c) c := by
  refine ⟨?_, ?_, ?_⟩
  · obtain ⟨w, c, hinit, hrun, hphase⟩ := @pair_reach _ RunCycle.phase .returned
      (emitted ++ skipped 1 ++ skipped 0 ++ [.stop, .closed, .finalize, .finish]) (by decide)
    have hreach : Reachable pairCycle c := Reach.run (.init hinit) hrun
    exact ⟨c, hreach, hphase, cycle_winds_down.1 c hreach hphase⟩
  · obtain ⟨w, c, hinit, hrun, hview⟩ := @pair_reach _ (fun c => (c.phase, c.wasCancelled)) (.ended, true)
      (emitted ++ [.receive false, .cancel]) (by decide)
    obtain ⟨hphase, hcancelled⟩ := Prod.mk.inj hview
    have hreach : Reach pairCycle (Orderly pair) c := by
      refine Reach.run_of_labels (.init hinit) (fun s l hl _ => ?_) hrun
      simp only [emitted, List.cons_append, List.nil_append, List.mem_cons, List.not_mem_nil, or_false] at hl
      rcases hl with rfl | rfl | rfl | rfl | rfl | rfl | rfl <;> trivial
    exact ⟨c, hreach, hcancelled, cycle_winds_down.2.1 c hreach (by rw [hphase]; rfl)⟩
  · obtain ⟨c, hreach, hphase, hbad⟩ := pair_disorderly
    exact ⟨c, hreach, hphase, cycle_winds_down.2.2 c hreach hphase hbad⟩

/-- A cycle whose loop has failed may wait for ever. -/
theorem cycle_hangs : ∃ c, Reachable pairCycle c ∧ c.phase.isOver ∧
    ¬ Settles pairCycle (fun _ _ => True) (fun _ => True)
      (fun c => c.phase = .returned ∧ WoundDown c) c := by
  obtain ⟨c, hreach, hphase, hbad⟩ := pair_disorderly
  exact ⟨c, hreach, by rw [hphase]; rfl, not_settles_of_disorderly hreach hphase hbad⟩

end Luchta.Proof.Cycle
