import Luchta.Framework.Correlation
import Luchta.Framework.Mutex
import Luchta.Impl.DelegateHandle

/-!
# The waiters of a delegate

* `Waits`: the table has those calls that are registered and were told nothing; what a call was told
  belongs to its message.
* `Waits.of_reachable`: it is so in every run.
-/

namespace Luchta.Proof.Delegate

open Luchta.Framework Luchta.Impl

variable {n : Nat}

/-- The id that a call is or was registered under. -/
def key : SendPhase → Option String
  | .lockStdin message | .write message _ | .unregister message | .await message => some message.id
  | .returned message _ => some message.id
  | .idle | .ensureSpawned _ | .notSpawned _ _ | .register _ => none

def writes : SendPhase → Prop
  | .write _ _ => True
  | _ => False

/-- The response that a call returns. -/
def answer : SendPhase → Option WorkerResponse
  | .returned _ (.ok response) => some response
  | _ => none

/-- The calls, their channels, and the table between them. -/
structure Waits (waiters : HashMap String (Fin n)) (channels : Fin n → Oneshot)
    (sends : Fin n → SendPhase) : Prop where
  keyed : Keyed waiters (fun i => key (sends i)) fun i => channels i = .waiting
  fresh : ∀ i, key (sends i) = none → channels i = .waiting
  sound : ∀ i r, channels i = .sent (.ok r) → key (sends i) = some r.id ∧ r.isTerminal = true
  returned : ∀ i r, answer (sends i) = some r → channels i = .sent (.ok r)

section Table

variable {waiters : HashMap String (Fin n)} {channels : Fin n → Oneshot} {k : String}
  {channel : Oneshot} {i j : Fin n}

theorem settled_self (h : waiters.lookup k = some i) : settled waiters channels k channel i = channel := by
  rw [settled, h, Option.elim_some, Function.update_self]

theorem settled_of_ne (h : waiters.lookup k ≠ some j) :
    settled waiters channels k channel j = channels j := by
  rw [settled]
  cases hi : waiters.lookup k with
  | none => rfl
  | some i =>
    have hne : j ≠ i := by
      rintro rfl
      exact h hi
    rw [Option.elim_some, Function.update_of_ne hne]

/-- A settled call waits no more. -/
theorem settled_waiting (hchannel : channel ≠ .waiting) :
    settled waiters channels k channel j = .waiting ↔
      channels j = .waiting ∧ waiters.lookup k ≠ some j := by
  by_cases hj : waiters.lookup k = some j
  · rw [settled_self hj]
    exact iff_of_false hchannel fun h => h.2 hj
  · rw [settled_of_ne hj]
    exact (and_iff_left hj).symm

end Table

namespace Waits

variable {waiters : HashMap String (Fin n)} {channels : Fin n → Oneshot} {sends : Fin n → SendPhase}
  {i : Fin n} {phase : SendPhase}

theorem channel_registered (h : Waits waiters channels sends) {k : String}
    (hi : waiters.lookup k = some i) : channels i = .waiting := ((h.keyed k i).1 hi).2

theorem not_found (h : Waits waiters channels sends) (hkey : key (sends i) = none) (k : String) :
    waiters.lookup k ≠ some i := by
  intro hi
  have hsome : key (sends i) = some k := ((h.keyed k i).1 hi).1
  rw [hsome] at hkey
  cases hkey

/-- A call goes on, registered or not as before. -/
theorem move (h : Waits waiters channels sends) (hkey : key phase = key (sends i))
    (hreturned : ∀ r, answer phase = some r → channels i = .sent (.ok r)) :
    Waits waiters channels (Function.update sends i phase) := by
  have hkeys : ∀ j, key (Function.update sends i phase j) = key (sends j) := by
    intro j
    by_cases hj : j = i
    · subst hj
      rw [Function.update_self, hkey]
    · rw [Function.update_of_ne hj]
  refine ⟨h.keyed.congr hkeys fun _ _ => Iff.rfl, fun j hj => h.fresh j (hkeys j ▸ hj),
    fun j r hr => ?_, fun j r hj => ?_⟩
  · rw [hkeys]
    exact h.sound j r hr
  · by_cases hji : j = i
    · subst hji
      rw [Function.update_self] at hj
      exact hreturned r hj
    · rw [Function.update_of_ne hji] at hj
      exact h.returned j r hj

/-- The same for a call that does not return a response. -/
theorem silent (h : Waits waiters channels sends) (hkey : key phase = key (sends i))
    (hanswer : answer phase = none) : Waits waiters channels (Function.update sends i phase) := by
  refine h.move hkey fun r hr => ?_
  rw [hanswer] at hr
  cases hr

theorem register (h : Waits waiters channels sends) {k : String} (hkey : key (sends i) = none)
    (hphase : key phase = some k) (hanswer : answer phase = none) :
    Waits (waiters.insert k i) (settled waiters channels k .dropped)
      (Function.update sends i phase) := by
  have hchannel : channels i = .waiting := h.fresh i hkey
  have hnot := h.not_found hkey k
  have hkeys : (fun j => key (Function.update sends i phase j)) =
      Function.update (fun j => key (sends j)) i (some k) := by
    funext j
    by_cases hj : j = i
    · subst hj
      rw [Function.update_self, Function.update_self, hphase]
    · rw [Function.update_of_ne hj, Function.update_of_ne hj]
  have hold : ∀ j r, settled waiters channels k .dropped j = .sent (.ok r) →
      channels j = .sent (.ok r) := by
    intro j r hr
    by_cases hj : waiters.lookup k = some j
    · rw [settled_self hj] at hr
      cases hr
    · rwa [settled_of_ne hj] at hr
  refine ⟨?_, fun j hj => ?_, fun j r hr => ?_, fun j r hj => ?_⟩
  · rw [hkeys]
    exact h.keyed.insert k hkey (by rw [settled_of_ne hnot, hchannel])
      fun j _ => settled_waiting nofun
  · by_cases hji : j = i
    · subst hji
      rw [Function.update_self, hphase] at hj
      cases hj
    · rw [Function.update_of_ne hji] at hj
      exact (settled_of_ne (h.not_found hj k)).trans (h.fresh j hj)
  · have hne : j ≠ i := by
      rintro rfl
      rw [hold j r hr] at hchannel
      cases hchannel
    rw [Function.update_of_ne hne]
    exact h.sound j r (hold j r hr)
  · by_cases hji : j = i
    · subst hji
      rw [Function.update_self, hanswer] at hj
      cases hj
    · rw [Function.update_of_ne hji] at hj
      have hsent := h.returned j r hj
      refine (settled_of_ne fun hl => ?_).trans hsent
      rw [h.channel_registered hl] at hsent
      cases hsent

/-- The call that waits under the id is told something, and is out of the table. -/
theorem settle (h : Waits waiters channels sends) (k : String) {channel : Oneshot}
    (hchannel : channel ≠ .waiting)
    (hsound : ∀ r, channel = .sent (.ok r) → r.id = k ∧ r.isTerminal = true) :
    Waits (waiters.erase k) (settled waiters channels k channel) sends := by
  refine ⟨h.keyed.erase k fun j _ => settled_waiting hchannel, fun j hj => ?_, fun j r hr => ?_,
    fun j r hj => ?_⟩
  · exact (settled_of_ne (h.not_found hj k)).trans (h.fresh j hj)
  · by_cases hj : waiters.lookup k = some j
    · rw [settled_self hj] at hr
      obtain ⟨hid, hterminal⟩ := hsound r hr
      exact ⟨hid ▸ ((h.keyed k j).1 hj).1, hterminal⟩
    · rw [settled_of_ne hj] at hr
      exact h.sound j r hr
  · have hsent := h.returned j r hj
    refine (settled_of_ne fun hl => ?_).trans hsent
    rw [h.channel_registered hl] at hsent
    cases hsent

theorem any_entries_iff : waiters.entries.any (·.2 = i) = true ↔ ∃ k, waiters.lookup k = some i := by
  rw [List.any_eq_true]
  constructor
  · rintro ⟨⟨k, j⟩, hmem, hj⟩
    obtain rfl : j = i := of_decide_eq_true hj
    exact ⟨k, AList.mem_lookup_iff.2 hmem⟩
  · rintro ⟨k, hk⟩
    exact ⟨⟨k, i⟩, AList.mem_lookup_iff.1 hk, decide_eq_true rfl⟩

theorem failAll (h : Waits waiters channels sends) (message : String) :
    Waits (∅ : HashMap String (Fin n))
      (fun i => if waiters.entries.any (·.2 = i) then .sent (.error message) else channels i) sends := by
  refine ⟨.clear _ fun j hj hwaiting => ?_, fun j hj => ?_, fun j r hr => ?_, fun j r hj => ?_⟩
  · split at hwaiting
    · cases hwaiting
    · rename_i hnone
      obtain ⟨k, hk⟩ := Option.ne_none_iff_exists'.1 hj
      exact hnone (any_entries_iff.2 ⟨k, (h.keyed k j).2 ⟨hk, hwaiting⟩⟩)
  · rw [if_neg]
    · exact h.fresh j hj
    · rw [any_entries_iff]
      exact fun ⟨k, hk⟩ => h.not_found hj k hk
  · split at hr
    · cases hr
    · exact h.sound j r hr
  · have hsent := h.returned j r hj
    rw [if_neg]
    · exact hsent
    · rw [any_entries_iff]
      rintro ⟨k, hk⟩
      rw [h.channel_registered hk] at hsent
      cases hsent

end Waits

/-! ## Runs -/

variable {s t : DelegateHandle n} {lineBytes : WorkerMessage → Nat} {exitText : ExitStatus → String}
  {capacity : Nat} {i : Fin n}

/-- The table is right, and the lock of stdin is held by the one call that writes. -/
structure DelegateInv (s : DelegateHandle n) : Prop where
  waits : Waits s.waiters s.channels s.sends
  lock : Owns s.stdin fun i => writes (s.sends i)

/-- A call returns what it was told. -/
theorem received_returned {message : WorkerMessage} {channel : Oneshot} {phase : SendPhase}
    (h : DelegateHandle.received message channel = some phase) :
    ∃ result, phase = .returned message result ∧
      ∀ r, result = .ok r → channel = .sent (.ok r) := by
  unfold DelegateHandle.received at h
  split at h
  · cases h
  · rename_i response
    exact ⟨.ok response, (Option.some.inj h).symm, fun r hr => by rw [Except.ok.inj hr]⟩
  · exact ⟨_, (Option.some.inj h).symm, nofun⟩
  · exact ⟨_, (Option.some.inj h).symm, nofun⟩

theorem DelegateInv.writeStdin (h : DelegateInv s) {message : WorkerMessage} {remaining : Nat}
    (hphase : s.sends i = .write message remaining)
    (hstep : s.writeStdin i message remaining = some t) : DelegateInv t := by
  have hkey : key (s.sends i) = some message.id := by
    rw [hphase]
    rfl
  have hwrites : writes (s.sends i) := by
    rw [hphase]
    trivial
  unfold DelegateHandle.writeStdin at hstep
  split at hstep
  · obtain rfl := Option.some.inj hstep
    exact ⟨h.waits.silent hkey.symm rfl, h.lock.cross (.release hwrites id)⟩
  · split at hstep
    · obtain rfl := Option.some.inj hstep
      exact ⟨h.waits.silent hkey.symm rfl, h.lock.cross (.release hwrites id)⟩
    · split at hstep
      · cases hstep
      · obtain rfl := Option.some.inj hstep
        exact ⟨h.waits.silent hkey.symm rfl, h.lock.cross (.keep (iff_of_true trivial hwrites))⟩

/-- A call goes on and leaves the table and the lock alone. -/
theorem DelegateInv.move (h : DelegateInv s) {phase : SendPhase} (hkey : key phase = key (s.sends i))
    (hlock : ¬ writes (s.sends i)) (hlock' : ¬ writes phase)
    (hreturned : ∀ r, answer phase = some r → s.channels i = .sent (.ok r)) :
    DelegateInv (s.setSend i phase) :=
  ⟨h.waits.move hkey hreturned, h.lock.cross (.keep (iff_of_false hlock' hlock))⟩

theorem DelegateInv.silent (h : DelegateInv s) {phase : SendPhase} (hkey : key phase = key (s.sends i))
    (hlock : ¬ writes (s.sends i)) (hlock' : ¬ writes phase) (hanswer : answer phase = none) :
    DelegateInv (s.setSend i phase) :=
  ⟨h.waits.silent hkey hanswer, h.lock.cross (.keep (iff_of_false hlock' hlock))⟩

theorem DelegateInv.register (h : DelegateInv s) {message : WorkerMessage}
    (hphase : s.sends i = .register message) : DelegateInv (s.register i message) := by
  have hkey : key (s.sends i) = none := by
    rw [hphase]
    rfl
  have hlock : ¬ writes (s.sends i) := by
    rw [hphase]
    exact id
  rw [DelegateHandle.register]
  split
  · exact ⟨h.waits.register hkey rfl rfl, h.lock.cross (.keep (iff_of_false id hlock))⟩
  · exact ⟨h.waits.register hkey rfl rfl, h.lock.cross (.keep (iff_of_false id hlock))⟩

theorem DelegateInv.sendStep (h : DelegateInv s) {spawnError : Option DelegateHandle.ProxyError}
    (hstep : s.sendStep lineBytes exitText i spawnError = some t) : DelegateInv t := by
  unfold DelegateHandle.sendStep at hstep
  split at hstep
  case h_1 => cases hstep
  case h_2 => cases hstep
  case h_3 => cases hstep
  case h_4 message hphase =>
    have hkey : key (s.sends i) = none := by
      rw [hphase]
      rfl
    have hlock : ¬ writes (s.sends i) := by
      rw [hphase]
      exact id
    split at hstep
    · obtain rfl := Option.some.inj hstep
      exact h.silent hkey.symm hlock id rfl
    · split at hstep
      · obtain rfl := Option.some.inj hstep
        exact ⟨h.waits.silent hkey.symm rfl, h.lock.cross (.keep (iff_of_false id hlock))⟩
      · obtain rfl := Option.some.inj hstep
        exact h.silent hkey.symm hlock id rfl
  case h_5 message hphase =>
    obtain rfl := Option.some.inj hstep
    exact h.register hphase
  case h_6 message hphase =>
    split at hstep
    · rename_i hfree
      obtain rfl := Option.some.inj hstep
      exact ⟨h.waits.silent (by rw [hphase]; rfl) rfl, h.lock.cross (.acquire hfree trivial)⟩
    · cases hstep
  case h_7 message remaining hphase => exact h.writeStdin hphase hstep
  case h_8 message hphase =>
    obtain rfl := Option.some.inj hstep
    have hwaits := h.waits.settle message.id (show Oneshot.dropped ≠ .waiting from nofun) nofun
    refine ⟨hwaits.silent (by rw [hphase]; rfl) rfl, h.lock.cross (.keep (iff_of_false id ?_))⟩
    rw [hphase]
    exact id
  case h_9 message hphase =>
    obtain ⟨phase, hreceived, rfl⟩ := Option.map_eq_some_iff.1 hstep
    obtain ⟨result, rfl, hresult⟩ := received_returned hreceived
    refine h.move (by rw [hphase]; rfl) (by rw [hphase]; exact id) id fun r hr => hresult r ?_
    cases result with
    | error error => cases hr
    | ok response => exact congrArg _ (Option.some.inj hr)

theorem DelegateInv.readerStep (h : DelegateInv s) {failure : Option String}
    (hstep : s.readerStep failure = some t) : DelegateInv t := by
  unfold DelegateHandle.readerStep at hstep
  split at hstep
  case h_1 =>
    split at hstep
    · split at hstep
      · obtain rfl := Option.some.inj hstep
        exact ⟨h.waits, h.lock⟩
      · cases hstep
    all_goals
      obtain rfl := Option.some.inj hstep
      exact ⟨h.waits, h.lock⟩
  case h_2 =>
    split at hstep
    all_goals
      obtain rfl := Option.some.inj hstep
      exact ⟨h.waits, h.lock⟩
  case h_3 response _ =>
    split at hstep
    · rename_i hterminal
      obtain rfl := Option.some.inj hstep
      refine ⟨h.waits.settle response.id nofun fun r hr => ?_, h.lock⟩
      obtain rfl := Except.ok.inj (Oneshot.sent.inj hr)
      exact ⟨rfl, hterminal⟩
    · obtain rfl := Option.some.inj hstep
      exact ⟨h.waits, h.lock⟩
  case h_4 =>
    obtain rfl := Option.some.inj hstep
    exact ⟨h.waits, h.lock⟩
  case h_5 =>
    obtain rfl := Option.some.inj hstep
    exact ⟨h.waits, h.lock⟩
  case h_6 message _ =>
    obtain rfl := Option.some.inj hstep
    exact ⟨h.waits.failAll message, h.lock⟩
  case h_7 => cases hstep

/-- What is not a step of a call or of the reader only concerns the pipes. -/
theorem DelegateInv.step (h : DelegateInv s) {l : DelegateStep n}
    (hstep : delegateStep lineBytes exitText capacity s l = some t) : DelegateInv t := by
  cases l with
  | call i message =>
    simp only [delegateStep] at hstep
    split at hstep
    · rename_i hphase
      obtain rfl := Option.some.inj hstep
      exact h.silent (by rw [hphase]; rfl) (by rw [hphase]; exact id) id rfl
    · cases hstep
  | send i spawnError => exact h.sendStep hstep
  | reader failure =>
    simp only [delegateStep] at hstep
    split at hstep
    · exact h.readerStep hstep
    · cases hstep
  | emit line | closeStdout | drain bytes | closeStdin | exit status =>
    simp only [delegateStep] at hstep
    split at hstep
    · obtain rfl := Option.some.inj hstep
      exact ⟨h.waits, h.lock⟩
    · cases hstep

theorem DelegateInv.of_reachable
    (h : Reachable (delegateHandle n lineBytes exitText capacity) s) : DelegateInv s := by
  refine h.invariant (fun s hinit => ?_) fun s l t _ hs _ hstep => hs.step hstep
  subst hinit
  refine ⟨⟨.clear _ nofun, fun _ _ => rfl, nofun, nofun⟩, fun i => ?_⟩
  exact iff_of_false id nofun

end Luchta.Proof.Delegate
