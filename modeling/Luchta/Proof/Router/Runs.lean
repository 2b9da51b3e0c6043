import Luchta.Proof.Router.Routing

/-!
# Runs of the router

* `routing`: one generation at a time, nothing to a predecessor of a restart, every message to at
  most one generation, and at most one last response for each.
* `all_answered`: each message that was accepted has its last response once the router stops.
-/

namespace Luchta.Proof.Router

open Luchta.Framework Luchta.Impl

variable {k : Ledger} {s t : RouterRun} {l : RouterEvent × Surroundings}

/-- How a turn of the loop ends. -/
theorem step_cases (h : routerSystem.step s l = some t) :
    s.result = none ∧
      ((∃ e, handleEvent l.2 l.1 s.router = (.error e, t.router) ∧ t.result = some (.error e)) ∨
        handleEvent l.2 l.1 s.router = (.ok (), t.router) ∧
          t.result = if t.router.shouldStop then some (.ok ()) else none) := by
  replace h : RouterRun.step s l = some t := h
  rw [RouterRun.step] at h
  split at h
  · contradiction
  · rename_i hnone
    refine ⟨Option.not_isSome_iff_eq_none.1 hnone, ?_⟩
    split at h <;> obtain rfl := Option.some.inj h
    · exact .inl ⟨_, ‹_›, rfl⟩
    · exact .inr ⟨‹_›, rfl⟩

/-- The accounts are in order, and the loop goes on from a router that is ready. -/
structure Sound (k : Ledger) (s : RouterRun) : Prop where
  ready : (∀ e, s.result ≠ some (.error e)) → Ready k s.router
  placed : ∃ current draining pending hand due, RouterAt k current draining pending hand due s.router

theorem Ready.sound (h : Ready k s.router) : Sound k s :=
  ⟨fun _ => h, h.imp fun _ ⟨d, p, h, _⟩ => ⟨d, p, [], [], h⟩⟩

theorem Sound.of_triple {k' : Ledger} (hstep : routerSystem.step s l = some t)
    (h : Triple (· = s.router) (handleEvent l.2 l.1) (fun _ => Ready k)
      (Broken l.2 k' s.router.pending)) : Sound k t ∨ Sound k' t := by
  obtain ⟨-, ⟨e, hrun, hres⟩ | ⟨hrun, -⟩⟩ := step_cases hstep
  · exact .inr ⟨fun hne => absurd hres (hne e), (h.error rfl hrun).1⟩
  · exact .inl (h.ok rfl hrun).sound

theorem step_sound (hs : Sound k s) (hl : k.tracked → Disciplined s.router l.1)
    (hstep : routerSystem.step s l = some t) : ∃ dropped, Sound { k with dropped } t := by
  obtain ⟨hnone, -⟩ := step_cases hstep
  have hready := hs.ready fun e => by simp [hnone]
  exact (Sound.of_triple hstep (handleEvent_spec hready hl)).elim (⟨_, ·⟩) fun h => ⟨k.dropped, h⟩

theorem init_at (tracked : Prop) :
    RouterAt ⟨tracked, 0, [], []⟩ (some (.new 0)) none [] [] [] .new where
  current_eq := rfl
  draining_eq := rfl
  pending_eq := rfl
  one := .inr rfl
  older g hg := by
    obtain rfl := Option.some.inj (hg.resolve_right nofun)
    exact Nat.one_pos
  sentOlder := nofun
  flight g hg m hm := nomatch hm
  order := List.Sublist.refl []
  sinceLe := Nat.zero_le _
  fresh g hg := Nat.zero_le _
  later := ⟨[], rfl, nofun⟩
  distinct _ := List.nodup_nil
  balance _ x := rfl

theorem sound_of_reach {C : RouterRun → RouterEvent × Surroundings → Prop} (tracked : Prop)
    (hC : ∀ s l, C s l → tracked → Disciplined s.router l.1) (h : Reach routerSystem C s) :
    ∃ dropped, Sound ⟨tracked, 0, [], dropped⟩ s := by
  refine h.invariant (I := fun s => ∃ dropped, Sound ⟨tracked, 0, [], dropped⟩ s) ?_ ?_
  · rintro s rfl
    exact ⟨[], Ready.sound (init_at tracked).ready⟩
  · rintro s l t - ⟨dropped, hs⟩ hc hstep
    exact step_sound hs (hC s l hc) hstep

/-- A restart enters what follows it as later. -/
theorem sound_after_restart {env : Surroundings} (hs : Sound k s)
    (hdown : s.router.shuttingDown = false)
    (hstep : routerSystem.step s (.FileChanged, env) = some t) :
    Sound { k with since := s.router.nextGenId, before := s.router.sent } t := by
  obtain ⟨hnone, -⟩ := step_cases hstep
  have hready := hs.ready fun e => by simp [hnone]
  let k' : Ledger := { k with since := s.router.nextGenId, before := s.router.sent }
  have hspec : Triple (· = s.router) (restart env) (fun _ => Ready k')
      (Broken env k' s.router.pending) :=
    restart_spec hready (by simp [hdown])
      fun s' hsent hnext draining pending due h => by
        show RouterAt { k with since := s.router.nextGenId, before := s.router.sent } _ _ _ _ _ _
        rw [← hsent, ← hnext]
        exact h.rebase
  exact (Sound.of_triple hstep hspec).elim id id

theorem sound_of_resume {C : RouterRun → RouterEvent × Surroundings → Prop} (hs : Sound k s)
    (hk : ¬k.tracked) (h : Reach (routerSystem.resume s) C t) :
    ∃ dropped, Sound { k with dropped } t := by
  refine h.invariant (I := fun t => ∃ dropped, Sound { k with dropped } t) ?_ ?_
  · rintro s rfl
    exact ⟨k.dropped, hs⟩
  · rintro t l u - ⟨dropped, ht⟩ - hstep
    have hnot : { k with dropped }.tracked → Disciplined t.router l.1 := fun h => absurd h hk
    obtain ⟨dropped', hu⟩ := step_sound ht hnot hstep
    exact ⟨dropped', hu⟩

/-! ## Routing -/

theorem routing :
    (∀ s, Reachable routerSystem s → s.router.current = none ∨ s.router.draining = none) ∧
    (∀ s env s' t, Reachable routerSystem s → s.router.shuttingDown = false →
      routerSystem.step s (.FileChanged, env) = some s' →
      Reachable (routerSystem.resume s') t →
      ∃ later, t.router.sent = s.router.sent ++ later ∧
        ∀ e ∈ later, s.router.nextGenId ≤ e.1) ∧
    (∀ s, Reachable routerSystem s →
      (s.router.sent.map Prod.snd).Sublist s.router.accepted) ∧
    (∀ s, Reach routerSystem (fun s l => Disciplined s.router l.1) s →
      ((s.router.stdout.filter (·.isTerminal)).map (·.id)).Nodup) := by
  refine ⟨fun s hs => ?_, fun s env s' t hs hdown hstep ht => ?_, fun s hs => ?_, fun s hs => ?_⟩
  · obtain ⟨_, hsound⟩ := sound_of_reach False (fun _ _ _ => False.elim) hs
    obtain ⟨_, _, _, _, _, h⟩ := hsound.placed
    rw [h.current_eq, h.draining_eq]
    exact h.one
  · obtain ⟨_, hsound⟩ := sound_of_reach False (fun _ _ _ => False.elim) hs
    obtain ⟨_, hlater⟩ := sound_of_resume (sound_after_restart hsound hdown hstep) id ht
    obtain ⟨_, _, _, _, _, h⟩ := hlater.placed
    exact h.later
  · obtain ⟨_, hsound⟩ := sound_of_reach False (fun _ _ _ => False.elim) hs
    obtain ⟨_, _, _, _, _, h⟩ := hsound.placed
    exact (List.sublist_append_left _ _).trans h.order
  · obtain ⟨_, hsound⟩ := sound_of_reach True (fun _ _ h _ => h) hs
    obtain ⟨_, _, _, _, _, h⟩ := hsound.placed
    rw [← answers_eq, List.nodup_iff_count_le_one]
    intro x
    have hle := List.nodup_iff_count_le_one.1 (h.distinct trivial) x
    have hbal := h.balance trivial x
    omega

def calm : Surroundings := ⟨true, fun _ => true, fun _ => true, fun _ => true, .id⟩

def job (id : String) : WorkerMessage := .Run ⟨id, "", false⟩

def runJobs (events : List RouterEvent) : Option RouterRun :=
  routerSystem.run (fun s l => Disciplined s.router l.1) ⟨.new, none⟩ (events.map (·, calm))

/-- The second job waits for the replacement, which answers it. -/
theorem routing_restart :
    ∃ s s' t, Reachable routerSystem s ∧ s.router.shuttingDown = false ∧
      routerSystem.step s (.FileChanged, calm) = some s' ∧ Reachable (routerSystem.resume s') t ∧
      t.router.sent.map (fun e => (e.1, e.2.id)) = [(0, "a"), (1, "b")] ∧
      (∃ later, t.router.sent = s.router.sent ++ later ∧ ∀ e ∈ later, s.router.nextGenId ≤ e.1) ∧
      (s'.router.current = none ∨ s'.router.draining = none) ∧
      (s.router.sent.map Prod.snd).Sublist s.router.accepted ∧
      ((s.router.stdout.filter (·.isTerminal)).map (·.id)).Nodup := by
  have hrun : ∃ s s' t, runJobs [.Inbound (job "a")] = some s ∧ s.router.shuttingDown = false ∧
      routerSystem.step s (.FileChanged, calm) = some s' ∧
      routerSystem.run (fun _ _ => True) s' ([.Inbound (job "b"), .Response 0 (.Done "a" 0 none),
        .Response 1 (.Done "b" 0 none), .StdoutClosed 0].map (·, calm)) = some t ∧
      t.router.sent.map (fun e => (e.1, e.2.id)) = [(0, "a"), (1, "b")] :=
    ⟨_, _, _, rfl, rfl, rfl, rfl, by decide⟩
  obtain ⟨s, s', t, hs, hdown, hstep, ht, hsent⟩ := hrun
  have hreach := Reach.run (.init rfl) hs
  have hs' : Reachable routerSystem s' := .step hreach.reachable trivial hstep
  have hlater := System.reach_of_run ht
  exact ⟨s, s', t, hreach.reachable, hdown, hstep, hlater, hsent,
    routing.2.1 s calm s' t hreach.reachable hdown hstep hlater, routing.1 s' hs',
    routing.2.2.1 s hreach.reachable, routing.2.2.2 s hreach⟩

/-! ## Answers -/

/-- Nothing is dropped: what is queued is neither dropped at the end of the grace nor left behind by
a generation that cannot be shut down. -/
def Answerable (s : MessageRouter) (l : RouterEvent × Surroundings) : Prop :=
  Reliable l.2 ∧ Disciplined s l.1 ∧
    (s.pending ≠ [] → l.1 ≠ .ShutdownTimeout ∧ ∀ genId, l.2.shutdown genId = true)

/-- Once the router has its result, everything is answered. -/
structure Complete (k : Ledger) (s : RouterRun) : Prop where
  ready : s.result = none → Ready k s.router
  settled : s.result.isSome → RouterAt k none none [] [] [] s.router

theorem droppedBy_eq_nil (hl : Answerable s.router l) : droppedBy s.router l.1 = [] := by
  obtain ⟨e, env⟩ := l
  cases e with
  | ShutdownTimeout =>
    show s.router.pending.map _ = []
    rw [List.map_eq_nil_iff]
    by_contra hpending
    exact (hl.2.2 hpending).1 rfl
  | _ => rfl

theorem Ready.settled (h : Ready k s.router) (hstop : s.router.shouldStop = true) :
    RouterAt k none none [] [] [] s.router := by
  obtain ⟨current, draining, pending, h, -⟩ := h
  simp only [MessageRouter.shouldStop, h.current_eq, h.draining_eq, h.pending_eq,
    Bool.and_eq_true, Option.isNone_iff_eq_none, List.isEmpty_iff] at hstop
  obtain ⟨⟨⟨-, rfl⟩, rfl⟩, rfl⟩ := hstop
  exact h

theorem step_complete (hs : Complete k s) (hl : Answerable s.router l)
    (hstep : routerSystem.step s l = some t) : Complete k t := by
  obtain ⟨hnone, hcases⟩ := step_cases hstep
  have hspec : Triple (· = s.router) (handleEvent l.2 l.1)
      (fun _ => Ready { k with dropped := droppedBy s.router l.1 ++ k.dropped })
      (Broken l.2 k s.router.pending) := handleEvent_spec (hs.ready hnone) fun _ => hl.2.1
  rw [droppedBy_eq_nil hl] at hspec
  obtain ⟨e, hrun, hres⟩ | ⟨hrun, hres⟩ := hcases
  · obtain ⟨hsettled, genId, hdown⟩ := (hspec.error rfl hrun).2 hl.1
    have hpending : s.router.pending = [] := by
      by_contra hne
      simp [(hl.2.2 hne).2 genId] at hdown
    rw [hpending] at hsettled
    exact ⟨fun h => by simp [hres] at h, fun _ => hsettled⟩
  · have hready : Ready k t.router := hspec.ok rfl hrun
    refine ⟨fun _ => hready, fun hsome => hready.settled ?_⟩
    by_contra hstop
    simp [hres, hstop] at hsome

theorem complete_of_reach (h : Reach routerSystem (fun s l => Answerable s.router l) s) :
    Complete ⟨True, 0, [], []⟩ s := by
  refine h.invariant (I := Complete ⟨True, 0, [], []⟩) ?_ fun s l t _ hs => step_complete hs
  rintro s rfl
  exact ⟨fun _ => (init_at True).ready, nofun⟩

theorem all_answered (h : Reach routerSystem (fun s l => Answerable s.router l) s)
    (hstop : s.result.isSome) {m : WorkerMessage} (hm : m ∈ s.router.accepted) :
    ((s.router.stdout.filter (·.isTerminal)).map (·.id)).count m.id = 1 := by
  have hat := (complete_of_reach h).settled hstop
  have hbal := hat.balance trivial m.id
  have hone : (acceptedIds s.router).count m.id = 1 :=
    List.count_eq_one_of_mem (hat.distinct trivial) (List.mem_map_of_mem hm)
  simp only [openIds, List.map_nil, List.count_nil] at hbal
  rw [← answers_eq]
  omega

/-- The second job is queued when the shutdown begins, and runs on the replacement. -/
theorem all_answered_queued :
    ∃ s, Reach routerSystem (fun s l => Answerable s.router l) s ∧ s.result.isSome ∧
      ((s.router.stdout.filter (·.isTerminal)).map (·.id)).count (job "b").id = 1 := by
  let events : List RouterEvent := [.Inbound (job "a"), .FileChanged, .Inbound (job "b"),
    .ShutdownAll, .Response 0 (.Done "a" 0 none), .Response 1 (.Done "b" 0 none), .StdoutClosed 1]
  have hrun : ∃ s, runJobs events = some s ∧ s.result.isSome ∧
      s.router.accepted = [job "a", job "b"] := ⟨_, rfl, rfl, rfl⟩
  obtain ⟨s, hs, hstop, haccepted⟩ := hrun
  have hreach : Reach routerSystem (fun s l => Answerable s.router l) s := by
    refine Reach.run_of_labels (.init rfl) (fun s l hl hd => ⟨?_, hd, fun _ => ?_⟩) hs
    all_goals obtain ⟨e, he, rfl⟩ := List.mem_map.1 hl
    · exact ⟨rfl, fun _ => rfl⟩
    · have hne : ∀ e ∈ events, e ≠ .ShutdownTimeout := by simp [events]
      exact ⟨hne e he, fun _ => rfl⟩
  refine ⟨s, hreach, hstop, all_answered hreach hstop ?_⟩
  simp [haccepted]

/-- The grace expires while a message is queued behind the generation that drains. -/
theorem queued_never_answered :
    ¬∀ s, Reach routerSystem (fun s l => Reliable l.2 ∧ Disciplined s.router l.1) s →
      s.result.isSome → ∀ m ∈ s.router.accepted,
        ((s.router.stdout.filter (·.isTerminal)).map (·.id)).count m.id = 1 := by
  intro h
  let events : List RouterEvent := [.Inbound (job "a"), .FileChanged, .Inbound (job "b"),
    .ShutdownAll, .ShutdownTimeout]
  have hrun : ∃ s, runJobs events = some s ∧ s.result.isSome ∧
      s.router.accepted = [job "a", job "b"] ∧
      ((s.router.stdout.filter (·.isTerminal)).map (·.id)).count "b" = 0 :=
    ⟨_, rfl, rfl, rfl, by decide⟩
  obtain ⟨s, hs, hstop, haccepted, hcount⟩ := hrun
  have hreach : Reach routerSystem (fun s l => Reliable l.2 ∧ Disciplined s.router l.1) s := by
    refine Reach.run_of_labels (.init rfl) (fun s l hl hd => ⟨?_, hd⟩) hs
    obtain ⟨e, -, rfl⟩ := List.mem_map.1 hl
    exact ⟨rfl, fun _ => rfl⟩
  have hone := h s hreach hstop (job "b") (by simp [haccepted])
  exact absurd (hone.symm.trans hcount) (by decide)

end Luchta.Proof.Router
