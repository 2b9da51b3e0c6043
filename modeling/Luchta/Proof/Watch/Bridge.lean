import Luchta.Impl.Bridge
import Luchta.Proof.Watch.Batch

/-!
# The bridge loses nothing

* `CallInv`: a call's message is in the channel, in the hands of the bridge or reported, or else it
  has left a flag or a failure which the bridge is going to take.
* `BridgeInv.step`: every step keeps this of every call.
* `bridge_reports`: where the bridge is blocked, every message that was handed over is reported.
-/

namespace Luchta.Proof.Watch

open Luchta.Framework Luchta.Impl

/-! ## Reports -/

def terminal : RawWatchMessage → Bool
  | .Events _ => false
  | .Errors errors => errors.any isTerminalBackendError

/-- The batches report what the call handed over: they ask for a rescan or have the paths which the
ignore filter keeps; for a terminal error they carry a failure. -/
def Reports (batches : List WatchBatch) (call : ForwardCall) : Prop :=
  match call.message with
  | .Events events => (∃ b ∈ batches, b.rescan = true) ∨
      ∃ view, call.view = some view ∧ ∀ q, Selects view.filter view.fs events q →
        ∃ b ∈ batches, q ∈ b.changedPaths
  | .Errors errors =>
    if errors.any isTerminalBackendError then ∃ b ∈ batches, b.failure.isSome
    else ∃ b ∈ batches, b.rescan = true

/-- Or they carry a failure, after which the bridge stops. -/
def Settled (batches : List WatchBatch) (call : ForwardCall) : Prop :=
  (∃ b ∈ batches, b.failure.isSome) ∨ Reports batches call

variable {l l' : List WatchBatch} {call : ForwardCall} {b b' : WatchBatch}

/-- Batches may be extended, and those left out that report nothing. -/
theorem Settled.mono (hl : ∀ b ∈ l, Extends b .default ∨ ∃ b' ∈ l', Extends b b')
    (h : Settled l call) : Settled l' call := by
  have hrescan : (∃ b ∈ l, b.rescan = true) → ∃ b ∈ l', b.rescan = true := by
    rintro ⟨b, hb, hr⟩
    rcases hl b hb with hext | ⟨b', hb', hext⟩
    · exact absurd (hext.rescan hr) nofun
    · exact ⟨b', hb', hext.rescan hr⟩
  have hfailure : (∃ b ∈ l, b.failure.isSome) → ∃ b ∈ l', b.failure.isSome := by
    rintro ⟨b, hb, hf⟩
    rcases hl b hb with hext | ⟨b', hb', hext⟩
    · exact absurd (hext.failure hf) nofun
    · exact ⟨b', hb', hext.failure hf⟩
  refine h.imp hfailure fun h => ?_
  unfold Reports at h ⊢
  split at h
  · refine h.imp hrescan fun ⟨view, hview, hsel⟩ => ⟨view, hview, fun q hq => ?_⟩
    obtain ⟨b, hb, hmem⟩ := hsel q hq
    rcases hl b hb with hext | ⟨b', hb', hext⟩
    · exact absurd (hext.changedPaths hmem) (Finset.notMem_empty q)
    · exact ⟨b', hb', hext.changedPaths hmem⟩
  · split at h
    · rename_i hterminal
      rw [if_pos hterminal]
      exact hfailure h
    · rename_i hterminal
      rw [if_neg hterminal]
      exact hrescan h

theorem Settled.of_failure (hb : b ∈ l) (h : b.failure.isSome) : Settled l call :=
  .inl ⟨b, hb, h⟩

/-- A rescan settles everything but a terminal error. -/
theorem Settled.of_rescan (hb : b ∈ l) (h : b.rescan = true) (hm : terminal call.message = false) :
    Settled l call := by
  right
  unfold Reports
  split
  · exact .inl ⟨b, hb, h⟩
  · rename_i errors hmessage
    rw [hmessage] at hm
    rw [if_neg (by simpa [terminal] using hm)]
    exact ⟨b, hb, h⟩

/-! ## The invariant -/

variable {s s' : BridgeState} {i : Nat} {m : RawWatchMessage}

def Running (s : BridgeState) : Prop := ∀ reason, s.phase ≠ .stopped reason

/-- The flag or failure that a call leaves if its message does not fit into the channel. -/
def Latched (s : BridgeState) (m : RawWatchMessage) : Prop :=
  if terminal m then s.rawFailure ≠ some none else s.rawOverflowed = true

/-- The bridge takes that flag or failure before it waits again. -/
def WillTake (phase : BridgePhase) (m : RawWatchMessage) : Prop :=
  match phase with
  | .process _ | .takeFailure _ => True
  | .swapOverflow _ => terminal m = false
  | _ => False

/-- The batch that the bridge is putting together or sending. -/
def inHand : BridgePhase → List WatchBatch
  | .takeFailure batch | .swapOverflow batch | .send batch => [batch]
  | _ => []

/-- The batches since the call began. -/
def since (s : BridgeState) (call : ForwardCall) : List WatchBatch :=
  inHand s.phase ++ s.sent.drop call.sentBefore

def CallInv (s : BridgeState) (i : Nat) (call : ForwardCall) : Prop :=
  call.phase = .notify ∨ call.phase = .returned →
    (i, call.message) ∈ s.raw.queue ∨ s.phase = .process (.Message i call.message) ∨
    Settled (since s call) call ∨
    (Latched s call.message ∧
      (call.phase = .notify ∨ s.rawOverflowWake = true ∨ WillTake s.phase call.message))

structure BridgeInv (s : BridgeState) : Prop where
  isOpen : Running s → s.raw.closed = false
  healthy : Running s → ∀ b ∈ s.sent, b.failure = none
  failed : s.phase = .stopped .Failure → ∃ b ∈ s.sent, b.failure.isSome
  before : ∀ call ∈ s.calls, call.sentBefore ≤ s.sent.length
  queued : ∀ i m, (i, m) ∈ s.raw.queue ∨ s.phase = .process (.Message i m) →
    ∃ call, s.calls[i]? = some call ∧ call.message = m
  calls : Running s → ∀ i call, s.calls[i]? = some call → CallInv s i call

/-! ## Calls -/

theorem getElem?_set_cases {calls : List ForwardCall} {i j : Nat} {call c : ForwardCall}
    (h : (calls.set i call)[j]? = some c) : j = i ∧ c = call ∨ j ≠ i ∧ calls[j]? = some c := by
  rw [List.getElem?_set] at h
  split at h
  · rename_i hij
    split at h
    · exact .inl ⟨hij.symm, (Option.some.inj h).symm⟩
    · contradiction
  · rename_i hij
    exact .inr ⟨Ne.symm hij, h⟩

/-- A call keeps its message and its age. -/
theorem tagged_set {calls : List ForwardCall} {i j : Nat} {call call' : ForwardCall}
    (hcall : calls[i]? = some call) (hmessage : call'.message = call.message)
    (h : ∃ c, calls[j]? = some c ∧ c.message = m) :
    ∃ c, (calls.set i call')[j]? = some c ∧ c.message = m := by
  obtain ⟨c, hc, hm⟩ := h
  by_cases hij : i = j
  · subst hij
    obtain rfl := Option.some.inj (hcall.symm.trans hc)
    have hlt := (List.getElem?_eq_some_iff.1 hcall).1
    exact ⟨call', List.getElem?_set_self hlt, hmessage.trans hm⟩
  · exact ⟨c, by rw [List.getElem?_set_ne hij, hc], hm⟩

theorem before_set {calls : List ForwardCall} {i n : Nat} {call call' : ForwardCall}
    (hcall : calls[i]? = some call) (hbefore : call'.sentBefore = call.sentBefore)
    (h : ∀ c ∈ calls, c.sentBefore ≤ n) : ∀ c ∈ calls.set i call', c.sentBefore ≤ n := by
  intro c hc
  rcases List.mem_or_eq_of_mem_set hc with hc | rfl
  · exact h c hc
  · exact hbefore ▸ h call (List.mem_of_getElem? hcall)

/-- The step of a call that keeps everything else, but for what it adds. -/
theorem forward_inv (hinv : BridgeInv s) (h : s.forward i = some s') : BridgeInv s' := by
  unfold BridgeState.forward at h
  cases hcall : s.calls[i]? with
  | none =>
    rw [hcall] at h
    contradiction
  | some call =>
    simp only [hcall, Option.bind_eq_bind, Option.bind_some, Option.pure_def] at h
    split at h
    · rename_i hphase
      split at h
      · -- full
        rename_i raw hsend
        obtain rfl := Channel.trySend_full hsend
        obtain rfl := Option.some.inj h
        refine ⟨hinv.isOpen, hinv.healthy, hinv.failed, before_set hcall rfl hinv.before,
          fun j m hj => tagged_set hcall rfl (hinv.queued j m hj), fun hrun j c hc => ?_⟩
        rcases getElem?_set_cases hc with ⟨rfl, rfl⟩ | ⟨-, hc⟩
        · exact fun hphase => by simp at hphase
        · exact hinv.calls hrun j c hc
      · rename_i raw result hresult hsend
        cases result with
        | full => exact (hresult rfl).elim
        | sent =>
          obtain rfl := Channel.trySend_sent hsend
          obtain rfl := Option.some.inj h
          refine ⟨hinv.isOpen, hinv.healthy, hinv.failed, before_set hcall rfl hinv.before,
            fun j m hj => ?_, fun hrun j c hc => ?_⟩
          · rcases hj with hj | hj
            · rcases List.mem_append.1 hj with hj | hj
              · exact tagged_set hcall rfl (hinv.queued j m (.inl hj))
              · cases List.mem_singleton.1 hj
                exact tagged_set hcall rfl ⟨call, hcall, rfl⟩
            · exact tagged_set hcall rfl (hinv.queued j m (.inr hj))
          · rcases getElem?_set_cases hc with ⟨rfl, rfl⟩ | ⟨-, hc⟩
            · exact fun _ => .inl (List.mem_append_right _ List.mem_cons_self)
            · exact fun hret => (hinv.calls hrun j c hc hret).imp_left (List.mem_append_left _)
        | closed =>
          -- the receiver is gone only when the bridge has stopped
          obtain ⟨rfl, hclosed⟩ := Channel.trySend_closed hsend
          obtain rfl := Option.some.inj h
          refine ⟨hinv.isOpen, hinv.healthy, hinv.failed, before_set hcall rfl hinv.before,
            fun j m hj => tagged_set hcall rfl (hinv.queued j m hj), fun hrun => ?_⟩
          rw [hinv.isOpen hrun] at hclosed
          contradiction
    · rename_i hphase
      -- the flag or the failure is left behind
      have hlatch : ∃ overflowed failure, s' = { s.setCall i { call with phase := .notify } with
            rawOverflowed := overflowed, rawFailure := failure } ∧
          (s.rawOverflowed = true → overflowed = true) ∧
          (s.rawFailure ≠ some none → failure ≠ some none) ∧
          (if terminal call.message then failure ≠ some none else overflowed = true) := by
        split at h
        · rename_i events hmessage
          obtain rfl := Option.some.inj h
          exact ⟨true, s.rawFailure, rfl, fun _ => rfl, id, by rw [hmessage]; rfl⟩
        · rename_i errors hmessage
          obtain ⟨hfail, hok⟩ := backendErrorBatch_reports errors
          split at h
          · rename_i failure hfailure
            obtain rfl := Option.some.inj h
            have hsome : (s.rawFailure.map fun pending => some (pending.getD failure)) ≠
                some none := by
              cases s.rawFailure <;> simp
            refine ⟨s.rawOverflowed, _, rfl, id, fun _ => hsome, ?_⟩
            rw [hmessage]
            split
            · exact hsome
            · rename_i hterminal
              rw [(hok (by simpa [terminal] using hterminal)).1] at hfailure
              contradiction
          · rename_i hfailure
            obtain rfl := Option.some.inj h
            refine ⟨true, s.rawFailure, rfl, fun _ => rfl, id, ?_⟩
            rw [hmessage, if_neg]
            intro hterminal
            have := hfail hterminal
            rw [hfailure] at this
            contradiction
      obtain ⟨overflowed, failure, rfl, hover, hfail, hlatched⟩ := hlatch
      refine ⟨hinv.isOpen, hinv.healthy, hinv.failed, before_set hcall rfl hinv.before,
        fun j m hj => tagged_set hcall rfl (hinv.queued j m hj), fun hrun j c hc => ?_⟩
      rcases getElem?_set_cases hc with ⟨rfl, rfl⟩ | ⟨-, hc⟩
      · exact fun _ => .inr (.inr (.inr ⟨hlatched, .inl rfl⟩))
      · intro hret
        rcases hinv.calls hrun j c hc hret with hq | hp | hset | ⟨hl, htake⟩
        · exact .inl hq
        · exact .inr (.inl hp)
        · exact .inr (.inr (.inl hset))
        · refine .inr (.inr (.inr ⟨?_, htake⟩))
          unfold Latched at hl ⊢
          split at hl
          · rename_i hterminal
            rw [if_pos hterminal]
            exact hfail hl
          · rename_i hterminal
            rw [if_neg hterminal]
            exact hover hl
    · rename_i hphase
      obtain rfl := Option.some.inj h
      refine ⟨hinv.isOpen, hinv.healthy, hinv.failed, before_set hcall rfl hinv.before,
        fun j m hj => tagged_set hcall rfl (hinv.queued j m hj), fun hrun j c hc => ?_⟩
      rcases getElem?_set_cases hc with ⟨rfl, rfl⟩ | ⟨-, hc⟩
      · intro _
        rcases hinv.calls hrun j call hcall (.inl hphase) with hq | hp | hset | ⟨hl, -⟩
        · exact .inl hq
        · exact .inr (.inl hp)
        · exact .inr (.inr (.inl hset))
        · exact .inr (.inr (.inr ⟨hl, .inr (.inl rfl)⟩))
      · intro hret
        rcases hinv.calls hrun j c hc hret with hq | hp | hset | ⟨hl, htake⟩
        · exact .inl hq
        · exact .inr (.inl hp)
        · exact .inr (.inr (.inl hset))
        · exact .inr (.inr (.inr ⟨hl, htake.imp_right fun h => .inl rfl⟩))
    · contradiction

/-! ## The bridge -/

theorem mem_modify_cases {calls : List ForwardCall} {f : ForwardCall → ForwardCall} {j : Nat}
    {c : ForwardCall} (h : (calls.modify i f)[j]? = some c) :
    (j = i ∧ ∃ call, calls[i]? = some call ∧ c = f call) ∨ j ≠ i ∧ calls[j]? = some c := by
  rw [List.getElem?_modify] at h
  obtain ⟨call, hcall, hc⟩ := Option.map_eq_some_iff.1 h
  split at hc
  · rename_i hij
    subst hij
    exact .inl ⟨rfl, call, hcall, hc.symm⟩
  · rename_i hij
    exact .inr ⟨Ne.symm hij, hcall.trans (congrArg some hc)⟩

/-- A call that is not the one being processed is as before once its message is processed. -/
theorem callInv_processed {input : BridgeInput} (hphase : s.phase = .process input)
    (hraw : s'.raw = s.raw) (hsent : s'.sent = s.sent) (hover : s'.rawOverflowed = s.rawOverflowed)
    (hfail : s'.rawFailure = s.rawFailure) (hphase' : s'.phase = .takeFailure b)
    (hi : ∀ j m, input = .Message j m → j ≠ i) (h : CallInv s i call) : CallInv s' i call := by
  intro hret
  rcases h hret with hq | hp | hset | ⟨hl, -⟩
  · exact .inl (hraw ▸ hq)
  · rw [hphase] at hp
    cases hp
    exact (hi _ _ rfl rfl).elim
  · refine .inr (.inr (.inl (hset.mono fun b hb => .inr ⟨b, ?_, .refl b⟩)))
    unfold since at hb ⊢
    rw [hphase] at hb
    rw [hsent]
    exact List.mem_append_right _ hb
  · refine .inr (.inr (.inr ⟨?_, .inr (.inr ?_)⟩))
    · unfold Latched at hl ⊢
      rwa [hover, hfail]
    · rw [hphase']
      trivial

/-- A call whose message was processed is settled by the batch that was made of it. -/
theorem callInv_of_settled (hphase : s.phase = .takeFailure b)
    (h : ∀ l, b ∈ l → Settled l call) : CallInv s i call := by
  refine fun _ => .inr (.inr (.inl (h _ ?_)))
  unfold since
  rw [hphase]
  exact List.mem_append_left _ List.mem_cons_self

theorem process_inv {input : BridgeInput} (hinv : BridgeInv s) (hphase : s.phase = .process input)
    (job : Except String (FsView × WatchOutcome)) : BridgeInv (s.processInput input job) := by
  have hrun : Running s := fun reason h => by
    rw [hphase] at h
    contradiction
  unfold BridgeState.processInput
  split
  · -- woken up: nothing was processed
    refine ⟨fun _ => hinv.isOpen hrun, fun _ => hinv.healthy hrun, nofun, hinv.before,
      fun j m hj => hinv.queued j m (.inl (hj.resolve_right nofun)), fun _ j c hc => ?_⟩
    exact callInv_processed hphase rfl rfl rfl rfl rfl nofun (hinv.calls hrun j c hc)
  · rename_i i errors
    obtain ⟨call, hcall, hmessage⟩ := hinv.queued i _ (.inr hphase)
    refine ⟨fun _ => hinv.isOpen hrun, fun _ => hinv.healthy hrun, nofun, hinv.before,
      fun j m hj => hinv.queued j m (.inl (hj.resolve_right nofun)), fun _ j c hc => ?_⟩
    by_cases hij : j = i
    · subst hij
      obtain rfl := Option.some.inj (hcall.symm.trans hc)
      obtain ⟨hfail, hok⟩ := backendErrorBatch_reports errors
      refine callInv_of_settled rfl fun l hl => ?_
      cases hterminal : errors.any isTerminalBackendError with
      | true => exact .of_failure hl (hfail hterminal)
      | false => exact .of_rescan hl (hok hterminal).2 (by rw [hmessage]; exact hterminal)
    · refine callInv_processed hphase rfl rfl rfl rfl rfl (fun k m hk => ?_) (hinv.calls hrun j c hc)
      cases hk
      exact Ne.symm hij
  · rename_i i events
    obtain ⟨call, hcall, hmessage⟩ := hinv.queued i _ (.inr hphase)
    split
    · -- the job failed, which the batch says
      refine ⟨fun _ => hinv.isOpen hrun, fun _ => hinv.healthy hrun, nofun, hinv.before,
        fun j m hj => hinv.queued j m (.inl (hj.resolve_right nofun)), fun _ j c hc => ?_⟩
      by_cases hij : j = i
      · exact callInv_of_settled rfl fun l hl => .of_failure hl rfl
      · refine callInv_processed hphase rfl rfl rfl rfl rfl (fun k m hk => ?_)
          (hinv.calls hrun j c hc)
        cases hk
        exact Ne.symm hij
    · rename_i fs watch
      refine ⟨fun _ => hinv.isOpen hrun, fun _ => hinv.healthy hrun, nofun, fun c hc => ?_,
        fun j m hj => ?_, fun _ j c hc => ?_⟩
      · obtain ⟨j, hj⟩ := List.getElem?_of_mem hc
        rcases mem_modify_cases hj with ⟨-, call', hcall', rfl⟩ | ⟨-, hc⟩
        · exact hinv.before call' (List.mem_of_getElem? hcall')
        · exact hinv.before c (List.mem_of_getElem? hc)
      · obtain ⟨c, hc, hm⟩ := hinv.queued j m (.inl (hj.resolve_right nofun))
        dsimp only
        rw [List.getElem?_modify, hc]
        refine ⟨_, rfl, ?_⟩
        split <;> exact hm
      · rcases mem_modify_cases hc with ⟨rfl, call', hcall', rfl⟩ | ⟨hij, hc⟩
        · obtain rfl := Option.some.inj (hcall.symm.trans hcall')
          refine callInv_of_settled rfl fun l hl => ?_
          cases hfilter : s.ignoreFilter with
          | none =>
            refine .of_rescan hl ?_ (by rw [hmessage]; rfl)
            rw [hfilter]
            rfl
          | some filter =>
            right
            unfold Reports
            split
            · rename_i events' hevents
              obtain rfl := RawWatchMessage.Events.inj (hmessage.symm.trans hevents)
              refine .inr ⟨⟨filter, fs⟩, rfl, fun q hq => ⟨_, hl, ?_⟩⟩
              rw [hfilter]
              exact mem_bridgeEventBatch hq
            · rename_i hevents
              rw [hmessage] at hevents
              contradiction
        · refine callInv_processed hphase rfl rfl rfl rfl rfl (fun k m hk => ?_)
            (hinv.calls hrun j c hc)
          cases hk
          exact Ne.symm hij

theorem takeFailure_inv (hinv : BridgeInv s) (hphase : s.phase = .takeFailure b) :
    BridgeInv { s with
      phase := .swapOverflow (BridgeState.appendLatchedFailure b s.rawFailure).1
      rawFailure := (BridgeState.appendLatchedFailure b s.rawFailure).2 } := by
  have hrun : Running s := fun reason h => by
    rw [hphase] at h
    contradiction
  have hext : Extends b (BridgeState.appendLatchedFailure b s.rawFailure).1 := by
    unfold BridgeState.appendLatchedFailure
    split
    rename_i failure rawFailure _
    cases failure with
    | none => exact .refl b
    | some failure => exact ⟨subset_rfl, id, fun _ => rfl⟩
  have htaken : s.rawFailure ≠ some none →
      (BridgeState.appendLatchedFailure b s.rawFailure).1.failure.isSome := by
    intro h
    unfold BridgeState.appendLatchedFailure
    cases hfailure : s.rawFailure with
    | none => rfl
    | some failure =>
      cases failure with
      | none => exact absurd hfailure h
      | some failure => rfl
  refine ⟨fun _ => hinv.isOpen hrun, fun _ => hinv.healthy hrun, nofun, hinv.before,
    fun j m hj => hinv.queued j m (.inl (hj.resolve_right nofun)), fun _ j c hc hret => ?_⟩
  rcases hinv.calls hrun j c hc hret with hq | hp | hset | ⟨hl, -⟩
  · exact .inl hq
  · rw [hphase] at hp
    contradiction
  · refine .inr (.inr (.inl (hset.mono fun b' hb' => ?_)))
    unfold since at hb'
    rw [hphase] at hb'
    rcases List.mem_append.1 hb' with hb' | hb'
    · rw [List.mem_singleton.1 hb']
      exact .inr ⟨_, List.mem_append_left _ List.mem_cons_self, hext⟩
    · exact .inr ⟨b', List.mem_append_right _ hb', .refl b'⟩
  · unfold Latched at hl
    split at hl
    · -- the failure is in the batch now
      exact .inr (.inr (.inl (.of_failure (List.mem_append_left _ List.mem_cons_self) (htaken hl))))
    · rename_i hterminal
      have hm : terminal c.message = false := by simpa using hterminal
      refine .inr (.inr (.inr ⟨?_, .inr (.inr hm)⟩))
      unfold Latched
      rw [if_neg hterminal]
      exact hl

theorem swapOverflow_inv (hinv : BridgeInv s) (hphase : s.phase = .swapOverflow b) :
    BridgeInv { s with
      rawOverflowed := false
      phase := if (BridgeState.appendOverflowRecovery b s.rawOverflowed).isEmpty then .next
        else .send (BridgeState.appendOverflowRecovery b s.rawOverflowed) } := by
  have hrun : Running s := fun reason h => by
    rw [hphase] at h
    contradiction
  have hext : Extends b (BridgeState.appendOverflowRecovery b s.rawOverflowed) := by
    unfold BridgeState.appendOverflowRecovery
    split
    · exact ⟨subset_rfl, fun _ => rfl, id⟩
    · exact .refl b
  have htaken : s.rawOverflowed = true →
      (BridgeState.appendOverflowRecovery b s.rawOverflowed).rescan = true := by
    intro h
    rw [BridgeState.appendOverflowRecovery, if_pos h]
  generalize BridgeState.appendOverflowRecovery b s.rawOverflowed = b' at *
  -- the batch is empty, or it is the one in hand
  have hhand : b'.isEmpty = true ∨
      inHand (if b'.isEmpty then .next else .send b') = [b'] := by
    by_cases hempty : b'.isEmpty = true
    · exact .inl hempty
    · right
      rw [if_neg hempty]
      rfl
  have hprocess : ∀ input, (if b'.isEmpty then BridgePhase.next else .send b') ≠ .process input := by
    intro input
    split <;> nofun
  have hstopped : ∀ reason, (if b'.isEmpty then BridgePhase.next else .send b') ≠ .stopped reason := by
    intro reason
    split <;> nofun
  refine ⟨fun _ => hinv.isOpen hrun, fun _ => hinv.healthy hrun, fun h => absurd h (hstopped _),
    hinv.before, fun j m hj => hinv.queued j m (.inl (hj.resolve_right (hprocess _))),
    fun _ j c hc hret => ?_⟩
  rcases hinv.calls hrun j c hc hret with hq | hp | hset | ⟨hl, htake⟩
  · exact .inl hq
  · rw [hphase] at hp
    contradiction
  · refine .inr (.inr (.inl (hset.mono fun d hd => ?_)))
    unfold since at hd
    rw [hphase] at hd
    rcases List.mem_append.1 hd with hd | hd
    · rw [List.mem_singleton.1 hd]
      rcases hhand with hempty | hhand
      · exact .inl (hext.trans (extends_default_of_isEmpty hempty))
      · exact .inr ⟨b', List.mem_append_left _ (hhand ▸ List.mem_cons_self), hext⟩
    · exact .inr ⟨d, List.mem_append_right _ hd, .refl d⟩
  · unfold Latched at hl
    split at hl
    · rename_i hterminal
      refine .inr (.inr (.inr ⟨?_, ?_⟩))
      · unfold Latched
        rw [if_pos hterminal]
        exact hl
      · rcases htake with hnotify | hwake | htake
        · exact .inl hnotify
        · exact .inr (.inl hwake)
        · rw [hphase] at htake
          have : terminal c.message = false := htake
          rw [hterminal] at this
          contradiction
    · rename_i hterminal
      -- the flag is in the batch now, which is therefore not empty
      have hrescan := htaken hl
      have hm : terminal c.message = false := by simpa using hterminal
      rcases hhand with hempty | hhand
      · exact absurd ((extends_default_of_isEmpty hempty).rescan hrescan) nofun
      · refine .inr (.inr (.inl (.of_rescan ?_ hrescan hm)))
        exact List.mem_append_left _ (hhand ▸ List.mem_cons_self)

/-- The end of the bridge settles nothing, but what it has sent stays. -/
theorem stop_inv {reason : StopReason} (hinv : BridgeInv s)
    (h : reason = .Failure → ∃ b ∈ s.sent, b.failure.isSome) : BridgeInv (s.stop reason) := by
  refine ⟨fun hrun => absurd rfl (hrun reason), fun hrun => absurd rfl (hrun reason),
    fun hreason => h (BridgePhase.stopped.inj hreason), hinv.before,
    fun j m hj => hinv.queued j m (.inl (hj.resolve_right nofun)), fun hrun => absurd rfl (hrun reason)⟩

theorem sendBatch_inv (hinv : BridgeInv s) (hphase : s.phase = .send b)
    (h : s.sendBatch b = some s') : BridgeInv s' := by
  have hrun : Running s := fun reason h => by
    rw [hphase] at h
    contradiction
  have hbefore : ∀ c ∈ s.calls, c.sentBefore ≤ (s.sent ++ [b]).length := fun c hc => by
    rw [List.length_append]
    exact (hinv.before c hc).trans (Nat.le_add_right _ _)
  unfold BridgeState.sendBatch at h
  split at h
  · obtain rfl := Option.some.inj h
    exact stop_inv hinv nofun
  · split at h
    · dsimp only at h
      split at h
      · rename_i hfailure
        obtain rfl := Option.some.inj h
        refine ⟨fun hrun => absurd rfl (hrun _), fun hrun => absurd rfl (hrun _), fun _ => ?_, hbefore,
          fun j m hj => hinv.queued j m (.inl (hj.resolve_right nofun)),
          fun hrun => absurd rfl (hrun _)⟩
        exact ⟨b, List.mem_append_right _ List.mem_cons_self, hfailure⟩
      · rename_i hfailure
        obtain rfl := Option.some.inj h
        refine ⟨fun _ => hinv.isOpen hrun, fun _ b' hb' => ?_, nofun, hbefore,
          fun j m hj => hinv.queued j m (.inl (hj.resolve_right nofun)), fun _ j c hc hret => ?_⟩
        · rcases List.mem_append.1 hb' with hb' | hb'
          · exact hinv.healthy hrun b' hb'
          · rw [List.mem_singleton.1 hb']
            simpa using hfailure
        · rcases hinv.calls hrun j c hc hret with hq | hp | hset | ⟨hl, htake⟩
          · exact .inl hq
          · rw [hphase] at hp
            contradiction
          · refine .inr (.inr (.inl (hset.mono fun b' hb' => .inr ⟨b', ?_, .refl b'⟩)))
            unfold since at hb' ⊢
            rw [hphase] at hb'
            dsimp only
            rw [List.drop_append_of_le_length (hinv.before c (List.mem_of_getElem? hc))]
            rcases List.mem_append.1 hb' with hb' | hb'
            · exact List.mem_append_right _ (List.mem_append_right _ hb')
            · exact List.mem_append_right _ (List.mem_append_left _ hb')
          · refine .inr (.inr (.inr ⟨hl, htake.imp_right (.imp_right fun h => ?_)⟩))
            rw [hphase] at h
            exact h
    · contradiction

/-! ## Runs -/

/-- A step that changes none of what the invariant reads. -/
theorem BridgeInv.congr (hinv : BridgeInv s) (hcalls : s'.calls = s.calls) (hraw : s'.raw = s.raw)
    (hover : s'.rawOverflowed = s.rawOverflowed)
    (hfail : s.rawFailure ≠ some none → s'.rawFailure ≠ some none)
    (hwake : s'.rawOverflowWake = s.rawOverflowWake) (hphase : s'.phase = s.phase)
    (hsent : s'.sent = s.sent) : BridgeInv s' := by
  have hrun : Running s' → Running s := fun h reason => hphase ▸ h reason
  refine ⟨fun h => by rw [hraw]; exact hinv.isOpen (hrun h),
    fun h => by rw [hsent]; exact hinv.healthy (hrun h),
    fun h => by rw [hsent]; exact hinv.failed (hphase ▸ h),
    by rw [hcalls, hsent]; exact hinv.before,
    by rw [hcalls, hraw, hphase]; exact hinv.queued, fun h j c hc hret => ?_⟩
  have hinvc := hinv.calls (hrun h) j c (hcalls ▸ hc) hret
  unfold since Latched at hinvc ⊢
  rw [hraw, hphase, hsent, hover, hwake]
  refine hinvc.imp_right (.imp_right (.imp_right (.imp_left fun hl => ?_)))
  split at hl
  · rename_i hterminal
    rw [if_pos hterminal]
    exact hfail hl
  · rename_i hterminal
    rw [if_neg hterminal]
    exact hl

theorem BridgeInv.step {label : BridgeLabel} (hinv : BridgeInv s) (h : s.step label = some s') :
    BridgeInv s' := by
  cases label with
  | call message =>
    simp only [BridgeState.step] at h
    split at h
    · contradiction
    · obtain rfl := Option.some.inj h
      refine ⟨hinv.isOpen, hinv.healthy, hinv.failed, fun c hc => ?_, fun j m hj => ?_,
        fun hrun j c hc => ?_⟩
      · rcases List.mem_append.1 hc with hc | hc
        · exact hinv.before c hc
        · rw [List.mem_singleton.1 hc]
      · obtain ⟨c, hc, hm⟩ := hinv.queued j m hj
        refine ⟨c, ?_, hm⟩
        rw [List.getElem?_append_left (List.getElem?_eq_some_iff.1 hc).1, hc]
      · rcases lt_or_ge j s.calls.length with hlt | hge
        · rw [List.getElem?_append_left hlt] at hc
          exact hinv.calls hrun j c hc
        · rw [List.getElem?_append_right hge] at hc
          obtain rfl := List.mem_singleton.1 (List.mem_of_getElem? hc)
          exact fun hret => by simp at hret
  | forward i => exact forward_inv hinv h
  | recv =>
    simp only [BridgeState.step] at h
    split at h
    · rename_i message raw hphase hrecv
      obtain ⟨hqueue, hclosed⟩ := Channel.recv_eq_some hrecv
      obtain rfl := Option.some.inj h
      have hrun : Running s := fun reason h => by
        rw [hphase] at h
        contradiction
      refine ⟨fun _ => hclosed.trans (hinv.isOpen hrun), fun _ => hinv.healthy hrun, nofun,
        hinv.before, fun j m hj => ?_, fun _ j c hc hret => ?_⟩
      · apply hinv.queued
        left
        rw [hqueue]
        rcases hj with hj | hj
        · exact List.mem_cons_of_mem _ hj
        · cases hj
          exact List.mem_cons_self
      · rcases hinv.calls hrun j c hc hret with hq | hp | hset | ⟨hl, htake⟩
        · rw [hqueue] at hq
          rcases List.mem_cons.1 hq with rfl | hq
          · exact .inr (.inl rfl)
          · exact .inl hq
        · rw [hphase] at hp
          contradiction
        · refine .inr (.inr (.inl (hset.mono fun b hb => .inr ⟨b, ?_, .refl b⟩)))
          unfold since at hb
          rw [hphase] at hb
          exact hb
        · exact .inr (.inr (.inr ⟨hl, .inr (.inr trivial)⟩))
    · contradiction
  | wake =>
    simp only [BridgeState.step] at h
    split at h
    · rename_i hphase
      split at h
      · obtain rfl := Option.some.inj h
        have hrun : Running s := fun reason h => by
          rw [hphase] at h
          contradiction
        refine ⟨fun _ => hinv.isOpen hrun, fun _ => hinv.healthy hrun, nofun, hinv.before,
          fun j m hj => hinv.queued j m (.inl (hj.resolve_right nofun)), fun _ j c hc hret => ?_⟩
        rcases hinv.calls hrun j c hc hret with hq | hp | hset | ⟨hl, htake⟩
        · exact .inl hq
        · rw [hphase] at hp
          contradiction
        · refine .inr (.inr (.inl (hset.mono fun b hb => .inr ⟨b, ?_, .refl b⟩)))
          unfold since at hb
          rw [hphase] at hb
          exact hb
        · exact .inr (.inr (.inr ⟨hl, .inr (.inr trivial)⟩))
      · contradiction
    · contradiction
  | closed =>
    simp only [BridgeState.step] at h
    split at h
    · split at h
      · obtain rfl := Option.some.inj h
        exact stop_inv hinv nofun
      · contradiction
    · contradiction
  | cancelled =>
    simp only [BridgeState.step] at h
    split at h
    all_goals
      first
      | contradiction
      | split at h
        · obtain rfl := Option.some.inj h
          exact stop_inv hinv nofun
        · contradiction
  | process job =>
    simp only [BridgeState.step] at h
    split at h
    · rename_i hphase
      obtain rfl := Option.some.inj h
      exact process_inv hinv hphase job
    · contradiction
  | takeFailure =>
    simp only [BridgeState.step] at h
    split at h
    · rename_i hphase
      obtain rfl := Option.some.inj h
      exact takeFailure_inv hinv hphase
    · contradiction
  | swapOverflow =>
    simp only [BridgeState.step] at h
    split at h
    · rename_i hphase
      obtain rfl := Option.some.inj h
      exact swapOverflow_inv hinv hphase
    · contradiction
  | send =>
    simp only [BridgeState.step] at h
    split at h
    · rename_i hphase
      exact sendBatch_inv hinv hphase h
    · contradiction
  | receive =>
    obtain ⟨r, -, rfl⟩ := Option.map_eq_some_iff.1 h
    exact hinv.congr rfl rfl rfl id rfl rfl rfl
  | poisonFailure =>
    obtain rfl := Option.some.inj h
    exact hinv.congr rfl rfl rfl (fun _ => nofun) rfl rfl rfl
  | _ =>
    obtain rfl := Option.some.inj h
    exact hinv.congr rfl rfl rfl id rfl rfl rfl

theorem reachable_bridgeInv (h : Reachable bridgeSystem s) : BridgeInv s := by
  refine h.invariant (I := BridgeInv) ?_ fun s label t _ hinv _ hs =>
    BridgeInv.step hinv hs
  rintro s ⟨filter, dirs, rfl⟩
  refine ⟨fun _ => rfl, fun _ => nofun, nofun, nofun, fun j m hj => ?_, fun _ j c hc => ?_⟩
  · rcases hj with hj | hj
    · contradiction
    · contradiction
  · contradiction

/-- The bridge waits and has nothing to go on with. -/
def Blocked (s : BridgeState) : Prop :=
  s.phase = .next ∧ s.raw.queue = [] ∧ s.rawOverflowWake = false

/-- In every interleaving of callbacks, bridge and driver: where the bridge is blocked, what the calls
that have returned had handed over was reported by batches sent since those calls began; where the
bridge has stopped for a failure, it has sent a batch that carries one. -/
theorem bridge_reports (h : Reachable bridgeSystem s) :
    (Blocked s → ∀ call ∈ s.calls, call.phase = .returned →
      Reports (s.sent.drop call.sentBefore) call) ∧
    (s.phase = .stopped .Failure → ∃ b ∈ s.sent, b.failure.isSome) := by
  have hinv := reachable_bridgeInv h
  refine ⟨fun ⟨hphase, hqueue, hwake⟩ call hcall hret => ?_, hinv.failed⟩
  have hrun : Running s := fun reason h => by
    rw [hphase] at h
    contradiction
  obtain ⟨i, hi⟩ := List.getElem?_of_mem hcall
  rcases hinv.calls hrun i call hi (.inr hret) with hq | hp | hset | ⟨-, htake⟩
  · rw [hqueue] at hq
    contradiction
  · rw [hphase] at hp
    contradiction
  · unfold since at hset
    rw [hphase] at hset
    refine hset.resolve_left ?_
    rintro ⟨b, hb, hfailure⟩
    rw [hinv.healthy hrun b (List.mem_of_mem_drop hb)] at hfailure
    contradiction
  · rcases htake with hnotify | hwaking | htake
    · rw [hret] at hnotify
      contradiction
    · rw [hwake] at hwaking
      contradiction
    · rw [hphase] at htake
      contradiction

section Sample

def sampleFilter : IgnoreFilter := ⟨⟨[.rootDir, .normal "work"]⟩, []⟩

def sampleView : FsView := ⟨fun _ => false, fun _ => none⟩

def sampleFile : Path := ⟨[.rootDir, .normal "work", .normal "main.ts"]⟩

def sampleEvents : List DebouncedEvent := [⟨.Create .File, [sampleFile], false⟩]

/-- A file is created, and the bridge comes back to wait. -/
def sampleLabels : List BridgeLabel :=
  [.call (.Events sampleEvents), .forward 0, .recv, .process (.ok (sampleView, fun _ => none)),
    .takeFailure, .swapOverflow, .send]

def sampleEnd : BridgeState :=
  { bridgeStart sampleFilter ∅ with
    calls := [⟨.Events sampleEvents, .returned, 0, some ⟨sampleFilter, sampleView⟩⟩]
    batches := (Channel.empty DEFAULT_CHANNEL_CAPACITY).push
      (collectWatchBatch sampleFilter sampleView sampleEvents)
    sent := [collectWatchBatch sampleFilter sampleView sampleEvents] }

theorem bridge_reports_sample : ∃ batch ∈ sampleEnd.sent, sampleFile ∈ batch.changedPaths := by
  have hrun : bridgeSystem.run (fun _ _ => True) (bridgeStart sampleFilter ∅) sampleLabels =
      some sampleEnd := by rfl
  have hreach : Reachable bridgeSystem sampleEnd :=
    .run (.init ⟨sampleFilter, ∅, rfl⟩) hrun
  obtain hrescan | ⟨view, hview, hsel⟩ := (bridge_reports hreach).1 ⟨rfl, rfl, rfl⟩ _
    List.mem_cons_self rfl
  · obtain ⟨b, hb, hr⟩ := hrescan
    rw [List.mem_singleton.1 hb] at hr
    contradiction
  · obtain rfl := Option.some.inj hview
    exact hsel sampleFile ⟨_, List.mem_cons_self, rfl, sampleFile, List.mem_cons_self, rfl, .inr rfl⟩

end Sample

end Luchta.Proof.Watch
