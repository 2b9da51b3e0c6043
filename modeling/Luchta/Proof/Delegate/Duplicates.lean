import Luchta.Proof.Delegate.Waiters

/-!
# Calls under an id that is in flight

Registering a call replaces the waiter that is registered under its id, and finds that out afterwards.

* `step_told`: what a call was told stays.
* `duplicate_harms`: the earlier call has lost its waiter, and never returns a response.
-/

namespace Luchta.Proof.Delegate

open Luchta.Framework Luchta.Impl

variable {n : Nat} {s t : DelegateHandle n} {lineBytes : WorkerMessage → Nat}
  {exitText : ExitStatus → String} {capacity : Nat} {i j : Fin n}

theorem settled_told (h : Waits s.waiters s.channels s.sends) (hj : s.channels j ≠ .waiting) (k : String)
    (channel : Oneshot) : settled s.waiters s.channels k channel j = s.channels j :=
  settled_of_ne fun hl => hj (h.channel_registered hl)

theorem failAll_told (h : Waits s.waiters s.channels s.sends) (hj : s.channels j ≠ .waiting)
    (message : String) : (s.failAllWaiters message).channels j = s.channels j := by
  refine if_neg fun hany => ?_
  obtain ⟨k, hk⟩ := Waits.any_entries_iff.1 hany
  exact hj (h.channel_registered hk)

theorem sendStep_told (h : DelegateInv s) (hj : s.channels j ≠ .waiting)
    {spawnError : Option DelegateHandle.ProxyError}
    (hstep : s.sendStep lineBytes exitText i spawnError = some t) : t.channels j = s.channels j := by
  unfold DelegateHandle.sendStep at hstep
  split at hstep
  case h_1 => cases hstep
  case h_2 => cases hstep
  case h_3 => cases hstep
  case h_4 =>
    split at hstep
    · obtain rfl := Option.some.inj hstep
      rfl
    · split at hstep
      · obtain rfl := Option.some.inj hstep
        rfl
      · obtain rfl := Option.some.inj hstep
        rfl
  case h_5 message _ =>
    obtain rfl := Option.some.inj hstep
    exact settled_told h.waits hj message.id .dropped
  case h_6 =>
    split at hstep
    · obtain rfl := Option.some.inj hstep
      rfl
    · cases hstep
  case h_7 =>
    unfold DelegateHandle.writeStdin at hstep
    split at hstep
    · obtain rfl := Option.some.inj hstep
      rfl
    · split at hstep
      · obtain rfl := Option.some.inj hstep
        rfl
      · split at hstep
        · cases hstep
        · obtain rfl := Option.some.inj hstep
          rfl
  case h_8 message _ =>
    obtain rfl := Option.some.inj hstep
    exact settled_told h.waits hj message.id .dropped
  case h_9 =>
    obtain ⟨phase, -, rfl⟩ := Option.map_eq_some_iff.1 hstep
    rfl

theorem readerStep_told (h : DelegateInv s) (hj : s.channels j ≠ .waiting) {failure : Option String}
    (hstep : s.readerStep failure = some t) : t.channels j = s.channels j := by
  unfold DelegateHandle.readerStep at hstep
  split at hstep
  case h_1 =>
    split at hstep
    · split at hstep
      · obtain rfl := Option.some.inj hstep
        rfl
      · cases hstep
    all_goals
      obtain rfl := Option.some.inj hstep
      rfl
  case h_2 =>
    split at hstep
    all_goals
      obtain rfl := Option.some.inj hstep
      rfl
  case h_3 response _ =>
    split at hstep
    · obtain rfl := Option.some.inj hstep
      exact settled_told h.waits hj response.id (.sent (.ok response))
    · obtain rfl := Option.some.inj hstep
      rfl
  case h_4 =>
    obtain rfl := Option.some.inj hstep
    rfl
  case h_5 =>
    obtain rfl := Option.some.inj hstep
    rfl
  case h_6 message _ =>
    obtain rfl := Option.some.inj hstep
    exact failAll_told h.waits hj message
  case h_7 => cases hstep

/-- What a call was told stays. -/
theorem step_told (h : DelegateInv s) (hj : s.channels j ≠ .waiting) {l : DelegateStep n}
    (hstep : delegateStep lineBytes exitText capacity s l = some t) : t.channels j = s.channels j := by
  cases l with
  | send i spawnError => exact sendStep_told h hj hstep
  | reader failure =>
    simp only [delegateStep] at hstep
    split at hstep
    · exact readerStep_told h hj hstep
    · cases hstep
  | call i message =>
    simp only [delegateStep] at hstep
    split at hstep
    · obtain rfl := Option.some.inj hstep
      rfl
    · cases hstep
  | emit line | closeStdout | drain bytes | closeStdin | exit status =>
    simp only [delegateStep] at hstep
    split at hstep
    · obtain rfl := Option.some.inj hstep
      rfl
    · cases hstep

/-- A call whose waiter was dropped never returns a response. -/
theorem never_answered (h : Reachable (delegateHandle n lineBytes exitText capacity) s)
    (hj : s.channels j = .dropped) {u : DelegateHandle n}
    (hu : Reachable ((delegateHandle n lineBytes exitText capacity).resume s) u)
    (message : WorkerMessage) (r : WorkerResponse) : u.sends j ≠ .returned message (.ok r) := by
  have hdropped : DelegateInv u ∧ u.channels j = .dropped := by
    refine hu.invariant (I := fun u => DelegateInv u ∧ u.channels j = .dropped) (fun u hinit => ?_)
      fun u l v _ ih _ hstep => ⟨ih.1.step hstep, ?_⟩
    · obtain rfl : u = s := hinit
      exact ⟨.of_reachable h, hj⟩
    · rw [step_told ih.1 (by rw [ih.2]; exact nofun) hstep, ih.2]
  intro hreturned
  have hsent := hdropped.1.waits.returned j r (by rw [hreturned]; rfl)
  rw [hdropped.2] at hsent
  cases hsent

/-- Everything but the call itself is as it was. -/
def Unharmed (s t : DelegateHandle n) : Prop := ∃ i phase, t = s.setSend i phase

/-- A call under an id that is in flight is rejected; it has taken the place of the earlier call, which
returns no response, however the delegate answers. -/
theorem duplicate_harms (h : Reachable (delegateHandle n lineBytes exitText capacity) s)
    {message : WorkerMessage} (hi : s.sends i = .register message)
    (hj : s.waiters.lookup message.id = some j) :
    ∃ t, (∀ spawnError, delegateStep lineBytes exitText capacity s (.send i spawnError) = some t) ∧
      t.sends i = .returned message (.error (.DuplicateInflightId message.id)) ∧
      ¬ Unharmed s t ∧
      ∀ u, Reachable ((delegateHandle n lineBytes exitText capacity).resume t) u →
        ∀ earlier r, u.sends j ≠ .returned earlier (.ok r) := by
  have hinv := DelegateInv.of_reachable h
  have hstep : ∀ spawnError, delegateStep lineBytes exitText capacity s (.send i spawnError) =
      some (s.register i message) := by
    intro spawnError
    simp only [delegateStep, DelegateHandle.sendStep, hi]
  have hne : i ≠ j := by
    rintro rfl
    exact hinv.waits.not_found (by rw [hi]; rfl) message.id hj
  have hreach : Reachable (delegateHandle n lineBytes exitText capacity) (s.register i message) :=
    .step (l := .send i none) h trivial (hstep none)
  refine ⟨s.register i message, hstep, ?_, ?_, fun u hu => never_answered hreach ?_ hu⟩
  · rw [DelegateHandle.register, hj]
    exact Function.update_self _ _ _
  · rintro ⟨i', phase, heq⟩
    have hlookup := congrArg (fun t : DelegateHandle n => t.waiters.lookup message.id) heq
    have hlookup : (s.waiters.insert message.id i).lookup message.id = s.waiters.lookup message.id := hlookup
    rw [AList.lookup_insert, hj] at hlookup
    exact hne (Option.some.inj hlookup)
  · exact settled_self hj

/-! ## Two calls -/

/-- Two calls, of ten bytes each. -/
def twoCalls : System (DelegateHandle 2) (DelegateStep 2) :=
  delegateHandle 2 (fun _ => 9) (fun status => toString status.raw) 64

def lintMessage : WorkerMessage := .Run ⟨"app#lint", "eslint", false⟩

/-- Both calls send the same message; the first one is in flight. -/
def inFlight : List (DelegateStep 2) :=
  [.call 0 lintMessage, .send 0 none, .send 0 none, .call 1 lintMessage, .send 1 none]

theorem duplicate_harms_lint : ∃ s t, Reachable twoCalls s ∧ s.waiters.lookup "app#lint" = some 0 ∧
    delegateStep (fun _ => 9) (fun status => toString status.raw) 64 s (.send 1 none) = some t ∧
    t.sends 1 = .returned lintMessage (.error (.DuplicateInflightId "app#lint")) ∧
    ∀ u, Reachable (twoCalls.resume t) u → ∀ earlier r, u.sends 0 ≠ .returned earlier (.ok r) := by
  have hrun : (twoCalls.run (fun _ _ => True) (.initial 2 64) inFlight).map (fun s =>
      (s.sends 1, s.waiters.lookup "app#lint")) = some (.register lintMessage, some 0) := by
    decide
  obtain ⟨s, hs, heq⟩ := Option.map_eq_some_iff.1 hrun
  obtain ⟨hsends, hlookup⟩ := Prod.mk.inj heq
  have hreach : Reachable twoCalls s := .run (.init rfl) hs
  obtain ⟨t, hstep, hreturned, -, hnever⟩ := duplicate_harms hreach hsends hlookup
  exact ⟨s, t, hreach, hlookup, hstep none, hreturned, hnever⟩

/-- The delegate answers the first call, which is told that its channel was closed. -/
theorem earlier_call_fails :
    (twoCalls.run (fun _ _ => True) (.initial 2 64) (inFlight ++ [.send 1 none] ++
      List.replicate 3 (.send 0 none) ++ .emit (.response (.Done "app#lint" 0 none)) ::
      List.replicate 3 (.reader none) ++ [.send 0 none])).map (fun s => (s.sends 0, s.sends 1)) =
    some (.returned lintMessage (.error (.DelegateClosed "delegate response channel closed")),
      .returned lintMessage (.error (.DuplicateInflightId "app#lint"))) := by
  decide

end Luchta.Proof.Delegate
