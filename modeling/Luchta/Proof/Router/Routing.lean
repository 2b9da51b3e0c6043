import Luchta.Proof.Router.Accounts

/-!
# What the handlers of the router do

One triple for each handler, over the accounts of the router.

* `Ready`: between two events nothing is at hand and nothing is due.
* `Broken`: how a handler may fail.
* `handleEvent_spec`: every event leaves the router ready.
-/

namespace Luchta.Proof.Router

open Luchta.Framework Luchta.Impl

/-- Nothing is queued while there is a current generation. -/
def Ready (k : Ledger) (s : MessageRouter) : Prop :=
  ∃ current draining pending, RouterAt k current draining pending [] [] s ∧
    (current.isSome → pending = [])

/-- Workers can be spawned and stdout takes what is written. -/
def Reliable (env : Surroundings) : Prop := env.spawn = true ∧ ∀ n, env.write n = true

/-- With reliable surroundings only the shutdown of a generation fails, once it is settled. -/
def Broken (env : Surroundings) (k : Ledger) (pending : List WorkerMessage) (s : MessageRouter) :
    Prop :=
  (∃ current draining pending hand due, RouterAt k current draining pending hand due s) ∧
    (Reliable env → RouterAt k none none pending [] [] s ∧ ∃ genId, env.shutdown genId = false)

variable {env : Surroundings} {k : Ledger} {current draining : Option Generation} {g : Generation}
  {pending hand queue : List WorkerMessage} {due : List String} {m : WorkerMessage}
  {r : WorkerResponse} {s : MessageRouter}

theorem RouterAt.broken (h : RouterAt k current draining pending hand due s)
    (henv : ¬Reliable env) : Broken env k queue s :=
  ⟨⟨_, _, _, _, _, h⟩, fun hrel => absurd hrel henv⟩

/-! ## Writing and spawning -/

theorem writeResponse_spec :
    Triple (RouterAt k current draining pending hand (settled r ++ due)) (writeResponse env r)
      (fun _ => RouterAt k current draining pending hand due) (Broken env k queue) := by
  refine .get fun s hs => ?_
  split
  · exact .modify fun s' heq => heq ▸ hs.answered
  · rename_i hwrite
    exact .throw fun s' heq => heq ▸ hs.broken fun hrel => hwrite (hrel.2 _)

theorem synthesizeTerminalForFailedSend_spec (id : String) (kind : InFlightKind) :
    Triple (RouterAt k current draining pending hand (id :: due))
      (synthesizeTerminalForFailedSend env id kind)
      (fun _ => RouterAt k current draining pending hand due) (Broken env k queue) := by
  have hsettled : settled (failedSendResponse id kind) = [id] := by cases kind <;> rfl
  have hspec : Triple (RouterAt k current draining pending hand
        (settled (failedSendResponse id kind) ++ due)) (writeResponse env (failedSendResponse id kind))
      (fun _ => RouterAt k current draining pending hand due) (Broken env k queue) :=
    writeResponse_spec
  rwa [hsettled] at hspec

theorem forM_synthesize_spec (l : List (String × InFlightKind)) :
    Triple (RouterAt k current draining pending hand (l.map Prod.fst))
      (l.forM fun e => synthesizeTerminalForFailedSend env e.1 e.2)
      (fun _ => RouterAt k current draining pending hand []) (Broken env k queue) := by
  induction l with
  | nil => exact .pure fun _ h => h
  | cons e l ih => exact (synthesizeTerminalForFailedSend_spec e.1 e.2).bind fun _ => ih

theorem RouterAt.perm {due' : List String} (h : RouterAt k current draining pending hand due s)
    (hperm : due.Perm due') : RouterAt k current draining pending hand due' s :=
  { h with balance := fun ht x => by rw [← hperm.count_eq]; exact h.balance ht x }

theorem synthesizeTerminalsFor_spec (g : Generation) :
    Triple (RouterAt k current draining pending hand g.inFlight.keys) (synthesizeTerminalsFor env g)
      (fun _ => RouterAt k current draining pending hand []) (Broken env k queue) := by
  refine (forM_synthesize_spec (g.drainInFlight env.order)).conseq (fun s hs => hs.perm ?_)
    (fun _ _ h => h) fun _ h => h
  have hperm := (env.order.perm (g.inFlight.entries.map fun e => (e.1, e.2))).map Prod.fst
  rw [List.map_map] at hperm
  exact hperm.symm

theorem shutdownGeneration_spec (g : Generation) :
    Triple (RouterAt k none none pending [] []) (shutdownGeneration env g)
      (fun _ => RouterAt k none none pending [] []) (Broken env k pending) := by
  rw [shutdownGeneration]
  split
  · exact .pure fun _ h => h
  · rename_i hdown
    exact .throw fun s h =>
      ⟨⟨_, _, _, _, _, h⟩, fun _ => ⟨h, g.id, Bool.eq_false_iff.2 hdown⟩⟩

theorem spawnCurrent_spec :
    Triple (RouterAt k none none pending hand due) (spawnCurrent env)
      (fun _ s => ∃ g, RouterAt k (some g) none pending hand due s) (Broken env k queue) := by
  rw [spawnCurrent]
  split
  · exact .modify fun s h => ⟨_, h.spawned⟩
  · rename_i hspawn
    exact .throw fun s h => h.broken fun hrel => hspawn hrel.1

/-! ## Sending -/

theorem sendToCurrent_spec :
    Triple (fun s => ∃ g, RouterAt k (some g) draining pending (m :: hand) [] s)
      (sendToCurrent env m)
      (fun _ s => ∃ g, RouterAt k (some g) draining pending hand [] s) (Broken env k queue) := by
  refine .get fun s ⟨g, hs⟩ => ?_
  refine .bind (Q := fun _ => RouterAt k (some g) draining pending (m :: hand) [])
    (.modify fun s' heq => heq ▸ { hs with }) fun _ => ?_
  rw [hs.current_eq]
  dsimp only
  split
  · rename_i g' hsend
    exact .modify fun s' hs' => ⟨g', hs'.sent hsend⟩
  · exact (synthesizeTerminalForFailedSend_spec m.id (inFlightKind m)).conseq
      (fun _ h => h.unsent) (fun _ _ h => ⟨g, h⟩) fun _ h => h

theorem forM_sendToCurrent_spec (l : List WorkerMessage) :
    Triple (fun s => ∃ g, RouterAt k (some g) draining pending l [] s)
      (l.forM (sendToCurrent env))
      (fun _ s => ∃ g, RouterAt k (some g) draining pending [] [] s) (Broken env k queue) := by
  induction l with
  | nil => exact .pure fun _ h => h
  | cons m l ih => exact sendToCurrent_spec.bind fun _ => ih

theorem replayPending_spec :
    Triple (RouterAt k none none pending [] []) (replayPending env)
      (fun _ s => ∃ g, RouterAt k (some g) none [] [] [] s) (Broken env k queue) := by
  refine spawnCurrent_spec.bind fun _ => .get fun s ⟨g, hs⟩ => ?_
  refine .bind (Q := fun _ s => ∃ g, RouterAt k (some g) none [] pending [] s)
    (.modify fun s' heq => heq ▸ ⟨g, hs.pick⟩) fun _ => ?_
  rw [hs.pending_eq]
  refine (forM_sendToCurrent_spec pending).bind fun _ => .modify fun s ⟨g, hs⟩ => ?_
  split
  · exact ⟨_, hs.closed⟩
  · exact ⟨g, hs⟩

theorem completeDrain_spec :
    Triple (RouterAt k none none pending [] []) (completeDrain env) (fun _ => Ready k)
      (Broken env k queue) := by
  refine .get fun s hs => ?_
  split
  · exact .pure fun s' heq => heq ▸ ⟨none, none, pending, hs, nofun⟩
  · exact (replayPending_spec.of_pre hs).conseq (fun _ h => h)
      (fun _ _ ⟨g, h⟩ => ⟨some g, none, [], h, fun _ => rfl⟩) fun _ h => h

/-! ## The handlers -/

theorem RouterAt.ready (h : RouterAt k current draining [] [] [] s) : Ready k s :=
  ⟨current, draining, [], h, fun _ => rfl⟩

theorem RouterAt.ready_of_none (h : RouterAt k none draining pending [] [] s) : Ready k s :=
  ⟨none, draining, pending, h, nofun⟩

theorem handleInbound_spec (hs : Ready k s)
    (hm : k.tracked → s.shuttingDown = false → m.id ∉ acceptedIds s) :
    Triple (· = s) (handleInbound env m) (fun _ => Ready k) (Broken env k queue) := by
  obtain ⟨current, draining, pending, hs, hqueue⟩ := hs
  refine .get fun s' heq => ?_
  subst s'
  split
  · exact .pure fun s' heq => heq ▸ ⟨current, draining, pending, hs, hqueue⟩
  · rename_i hdown
    have hm := fun ht => hm ht (Bool.eq_false_iff.2 hdown)
    refine .bind (Q := fun _ s' => s' = { s with accepted := s.accepted ++ [m] })
      (.modify fun s' heq => heq ▸ rfl) fun _ => ?_
    split
    · rename_i hsome
      obtain ⟨g, hg⟩ := Option.isSome_iff_exists.1 hsome
      obtain rfl : current = some g := hs.current_eq.symm.trans hg
      obtain rfl := hqueue rfl
      exact (sendToCurrent_spec.of_pre ⟨g, hs.accepted hm⟩).conseq (fun _ h => h)
        (fun _ _ ⟨_, h⟩ => h.ready) fun _ h => h
    · rename_i hnone
      obtain rfl : current = none :=
        hs.current_eq.symm.trans (Option.not_isSome_iff_eq_none.1 hnone)
      exact .modify fun s' heq => heq ▸ (hs.queued hm).ready_of_none

theorem finishDrain_spec (g : Generation) :
    Triple (fun s => RouterAt k none none pending [] [] { s with draining := none })
      (finishDrain env g) (fun _ => Ready k) (Broken env k pending) :=
  .bind (.modify fun _ h => h) fun _ =>
    (shutdownGeneration_spec g).bind fun _ => completeDrain_spec

theorem reapDraining_spec (g : Generation) :
    Triple (RouterAt k none (some g) pending [] []) (reapDraining env g) (fun _ => Ready k)
      (Broken env k pending) :=
  .bind (.modify fun _ h => h.takeDraining) fun _ =>
    (synthesizeTerminalsFor_spec g).bind fun _ =>
      (shutdownGeneration_spec g).bind fun _ => completeDrain_spec

/-- The slot of a generation is filtered by its id. -/
theorem filter_id_eq {o : Option Generation} {genId : Nat} (h : o.filter (·.id = genId) = some g) :
    o = some g ∧ g.id = genId := by
  obtain ⟨ho, hid⟩ := Option.filter_eq_some_iff.1 h
  exact ⟨ho, of_decide_eq_true hid⟩

/-- Nothing is in flight, so nothing is due. -/
theorem keys_of_inFlightLen (h : g.inFlightLen = 0) : g.inFlight.keys = [] := by
  have hnil : g.inFlight.entries = [] := List.length_eq_zero_iff.1 h
  show g.inFlight.entries.keys = []
  rw [hnil]
  rfl

theorem handleResponse_spec {genId : Nat} (hs : Ready k s) (hr : k.tracked → Answers s genId r) :
    Triple (· = s) (handleResponse env genId r) (fun _ => Ready k) (Broken env k s.pending) := by
  obtain ⟨current, draining, pending, hs, hqueue⟩ := hs
  obtain rfl := hs.pending_eq
  refine .bind (Q := fun _ s' => s' = heardBy s genId r)
    (.modify fun s' heq => heq ▸ rfl) fun _ => .get fun s' heq => ?_
  subst s'
  have hheard := hs.heard (r := r) genId
  rw [hheard.current_eq, hheard.draining_eq]
  split
  · rename_i g hg
    obtain ⟨rfl, rfl⟩ := filter_id_eq hg
    refine .bind (Q := fun _ => RouterAt k (some (g.onResponse r)) draining s.pending []
      (settled r)) (.modify fun s' heq => heq ▸ hs.responded hr) fun _ => ?_
    have hspec : Triple (RouterAt k (some (g.onResponse r)) draining s.pending [] (settled r ++ []))
        (writeResponse env r) (fun _ => RouterAt k (some (g.onResponse r)) draining s.pending [] [])
        (Broken env k s.pending) := writeResponse_spec
    rw [List.append_nil] at hspec
    exact hspec.conseq (fun _ h => h) (fun _ _ h => ⟨_, _, _, h, fun _ => hqueue rfl⟩) fun _ h => h
  · split
    · rename_i g hg
      obtain ⟨rfl, rfl⟩ := filter_id_eq hg
      obtain rfl : current = none := hs.one.resolve_right nofun
      refine .bind (Q := fun _ => RouterAt k none (some (g.onResponse r)) s.pending []
        (settled r)) (.modify fun s' heq => heq ▸ hs.respondedDraining hr) fun _ => ?_
      have hspec : Triple (RouterAt k none (some (g.onResponse r)) s.pending [] (settled r ++ []))
          (writeResponse env r) (fun _ => RouterAt k none (some (g.onResponse r)) s.pending [] [])
          (Broken env k s.pending) := writeResponse_spec
      rw [List.append_nil] at hspec
      refine hspec.bind fun _ => ?_
      split
      · rename_i hlen
        refine (finishDrain_spec _).conseq (fun s' hs' => ?_) (fun _ _ h => h) fun _ h => h
        exact keys_of_inFlightLen hlen ▸ hs'.takeDraining
      · exact .pure fun s' hs' => hs'.ready_of_none
    · exact .pure fun s' heq => heq ▸ ⟨_, _, _, hheard, hqueue⟩

theorem handleStdoutClosed_spec {genId : Nat} (hs : Ready k s) :
    Triple (· = s) (handleStdoutClosed env genId) (fun _ => Ready k) (Broken env k s.pending) := by
  obtain ⟨current, draining, pending, hs, hqueue⟩ := hs
  obtain rfl := hs.pending_eq
  refine .get fun s' heq => ?_
  subst s'
  rw [hs.current_eq, hs.draining_eq]
  split
  · rename_i g hg
    obtain ⟨rfl, rfl⟩ := filter_id_eq hg
    obtain rfl : draining = none := hs.one.resolve_left nofun
    refine .bind (Q := fun _ => RouterAt k none none s.pending [] g.inFlight.keys)
      (.modify fun s' heq => heq ▸ hs.takeCurrent) fun _ =>
      (synthesizeTerminalsFor_spec g).bind fun _ => (shutdownGeneration_spec g).bind fun _ => ?_
    split
    · exact .pure fun s' hs' => hs'.ready_of_none
    · exact spawnCurrent_spec.conseq (fun _ h => h)
        (fun _ _ ⟨_, h⟩ => ⟨_, _, _, h, fun _ => hqueue rfl⟩) fun _ h => h
  · split
    · rename_i g hg
      obtain ⟨rfl, rfl⟩ := filter_id_eq hg
      obtain rfl : current = none := hs.one.resolve_right nofun
      exact (reapDraining_spec g).of_pre hs
    · exact .pure fun s' heq => heq ▸ ⟨_, _, _, hs, hqueue⟩

/-- Once there is no current generation, `k'` may be entered instead of `k`. -/
theorem restart_spec {k' : Ledger} (hs : Ready k s) (hdown : s.shuttingDown → Ready k' s)
    (hk : ∀ s' : MessageRouter, s'.sent = s.sent → s'.nextGenId = s.nextGenId →
      ∀ draining pending due, RouterAt k none draining pending [] due s' →
        RouterAt k' none draining pending [] due s') :
    Triple (· = s) (restart env) (fun _ => Ready k') (Broken env k' s.pending) := by
  obtain ⟨current, draining, pending, hs, hqueue⟩ := hs
  obtain rfl := hs.pending_eq
  refine .get fun s' heq => ?_
  subst s'
  split
  · rename_i h
    exact .pure fun s' heq => heq ▸ hdown h
  split
  · rename_i hdraining
    rw [hs.draining_eq] at hdraining
    obtain rfl : current = none := hs.one.resolve_right fun h => by simp [h] at hdraining
    exact .pure fun s' heq => heq ▸ (hk s rfl rfl _ _ _ hs).ready_of_none
  · rw [hs.current_eq]
    cases current with
    | none => exact .pure fun s' heq => heq ▸ (hk s rfl rfl _ _ _ hs).ready_of_none
    | some g =>
      obtain rfl : draining = none := hs.one.resolve_left nofun
      refine .bind (Q := fun _ s' => s' = { s with current := none })
        (.modify fun s' heq => heq ▸ rfl) fun _ => ?_
      split
      · rename_i hlen
        have htaken := hk { s with current := none } rfl rfl _ _ _ hs.takeCurrent
        rw [keys_of_inFlightLen hlen] at htaken
        exact ((shutdownGeneration_spec g).bind fun _ => completeDrain_spec).of_pre htaken
      · refine .modify fun s' heq => heq ▸ ?_
        exact (hk { s with current := none, draining := some g } rfl rfl _ _ _
          hs.drain).ready_of_none

theorem handleDrainTimeout_spec {genId : Nat} (hs : Ready k s) :
    Triple (· = s) (handleDrainTimeout env genId) (fun _ => Ready k) (Broken env k s.pending) := by
  obtain ⟨current, draining, pending, hs, hqueue⟩ := hs
  obtain rfl := hs.pending_eq
  refine .get fun s' heq => ?_
  subst s'
  rw [hs.draining_eq]
  split
  · rename_i g hg
    obtain ⟨rfl, rfl⟩ := filter_id_eq hg
    obtain rfl : current = none := hs.one.resolve_right nofun
    exact (reapDraining_spec g).of_pre hs
  · exact .pure fun s' heq => heq ▸ ⟨_, _, _, hs, hqueue⟩

theorem handleShutdownAll_spec (hs : Ready k s) :
    Triple (· = s) handleShutdownAll (fun _ => Ready k) (Broken env k queue) := by
  obtain ⟨current, draining, pending, hs, hqueue⟩ := hs
  refine .modify fun s' heq => ?_
  subst heq
  split
  · exact ⟨_, _, _, hs, hqueue⟩
  · exact ⟨_, _, _, { hs.closed with }, by simpa using hqueue⟩

theorem terminateCurrent_spec :
    Triple (RouterAt k current draining pending [] []) (terminateCurrent env)
      (fun _ => RouterAt k none draining pending [] []) (Broken env k pending) := by
  refine .get fun s hs => ?_
  rw [hs.current_eq]
  cases current with
  | none => exact .pure fun s' heq => heq ▸ hs
  | some g =>
    obtain rfl : draining = none := hs.one.resolve_left nofun
    exact .bind (.modify fun s' heq => heq ▸ hs.takeCurrent) fun _ =>
      (synthesizeTerminalsFor_spec g).bind fun _ => shutdownGeneration_spec g

theorem terminateDraining_spec :
    Triple (RouterAt k none draining pending [] []) (terminateDraining env)
      (fun _ => RouterAt k none none pending [] []) (Broken env k pending) := by
  refine .get fun s hs => ?_
  rw [hs.draining_eq]
  cases draining with
  | none => exact .pure fun s' heq => heq ▸ hs
  | some g =>
    exact .bind (.modify fun s' heq => heq ▸ hs.takeDraining) fun _ =>
      (synthesizeTerminalsFor_spec g).bind fun _ => shutdownGeneration_spec g

/-- What is queued at the end of the grace is dropped. -/
theorem handleShutdownTimeout_spec (hs : Ready k s) :
    Triple (· = s) (handleShutdownTimeout env)
      (fun _ => Ready { k with dropped := s.pending.map (·.id) ++ k.dropped })
      (Broken env k s.pending) := by
  obtain ⟨current, draining, pending, hs, -⟩ := hs
  obtain rfl := hs.pending_eq
  exact (terminateCurrent_spec.bind fun _ => terminateDraining_spec.bind fun _ =>
    .modify fun s' hs' => hs'.drop.ready).of_pre hs

/-- Ids are not used again, and workers answer what they were sent, once. -/
def Disciplined (s : MessageRouter) : RouterEvent → Prop
  | .Inbound m => s.shuttingDown = false → m.id ∉ acceptedIds s
  | .Response genId r => Answers s genId r
  | _ => True

instance (s : MessageRouter) : ∀ e, Decidable (Disciplined s e)
  | .Inbound m => inferInstanceAs (Decidable (s.shuttingDown = false → m.id ∉ acceptedIds s))
  | .Response genId r => inferInstanceAs (Decidable (r.isTerminal →
      (genId, r.id) ∈ s.sent.map (fun e => (e.1, e.2.id)) ∧ (genId, r.id) ∉ s.heard))
  | .StdoutClosed _ | .FileChanged | .DrainTimeout _ | .ShutdownAll | .ShutdownTimeout =>
    inferInstanceAs (Decidable True)

def droppedBy (s : MessageRouter) : RouterEvent → List String
  | .ShutdownTimeout => s.pending.map (·.id)
  | _ => []

theorem handleEvent_spec {e : RouterEvent} (hs : Ready k s) (he : k.tracked → Disciplined s e) :
    Triple (· = s) (handleEvent env e)
      (fun _ => Ready { k with dropped := droppedBy s e ++ k.dropped })
      (Broken env k s.pending) := by
  cases e with
  | Inbound m => exact handleInbound_spec hs he
  | Response genId r => exact handleResponse_spec hs he
  | StdoutClosed genId => exact handleStdoutClosed_spec hs
  | FileChanged => exact restart_spec hs (fun _ => hs) fun _ _ _ _ _ _ h => h
  | DrainTimeout genId => exact handleDrainTimeout_spec hs
  | ShutdownAll => exact handleShutdownAll_spec hs
  | ShutdownTimeout => exact handleShutdownTimeout_spec hs

end Luchta.Proof.Router
