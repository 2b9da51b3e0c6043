import Luchta.Framework.Progress
import Luchta.Proof.Delegate.Waiters

/-!
# Calls that wait for a reader that has stopped

* `Orderly`: what a step must not do for no call to be stranded.
* `Swept`: in orderly runs, what is left to the calls once the reader has stopped.
* `send_returns`: from there on they all return, whatever the delegate does.
* `send_stranded`: three runs in which a call waits for good.
-/

namespace Luchta.Proof.Delegate

open Luchta.Framework Luchta.Impl

variable {n : Nat}

/-! ## Conditions -/

/-- A call that is registered and was not yet told anything by the delegate. -/
def registered : SendPhase → Prop
  | .lockStdin _ | .write _ _ | .await _ => True
  | _ => False

/-- What a registered call has still to write. -/
def unwritten (lineBytes : WorkerMessage → Nat) : SendPhase → Nat
  | .lockStdin message => lineBytes message + 1
  | .write _ remaining => remaining
  | _ => 0

/-- What is registered can be written without the delegate reading on, or cannot be written at all. -/
def Writable (lineBytes : WorkerMessage → Nat) (closed : Bool) (room : Nat) (sends : Fin n → SendPhase) :
    Prop :=
  closed = true ∨ ∑ i, unwritten lineBytes (sends i) ≤ room

/-- The step registers no call behind a reader that has stopped, unless nobody reads stdin any more;
the reader does not give up over its own diagnostic while a call is registered, and does not fail the
calls while they have more to write than the pipe takes. -/
def Orderly (lineBytes : WorkerMessage → Nat) (s : DelegateHandle n) : DelegateStep n → Prop
  | .send i _ => ∀ message, s.sends i = .register message → s.reader = .stopped → s.stdinClosed = true
  | .reader failure =>
    (∀ message, s.reader = .log message → failure.isSome → ∀ i, ¬ registered (s.sends i)) ∧
      ∀ message, s.reader = .failAll message → Writable lineBytes s.stdinClosed s.room s.sends
  | _ => True

/-! ## After the reader -/

/-- What is left to the calls: to hear what they were told, or that nobody reads what they write. -/
structure Swept (lineBytes : WorkerMessage → Nat) (closed : Bool) (room : Nat)
    (channels : Fin n → Oneshot) (sends : Fin n → SendPhase) : Prop where
  told : ∀ i, registered (sends i) → channels i = .waiting →
    closed = true ∧ 0 < unwritten lineBytes (sends i)
  writable : Writable lineBytes closed room sends

variable {s t : DelegateHandle n} {lineBytes : WorkerMessage → Nat} {exitText : ExitStatus → String}
  {capacity : Nat} {i : Fin n} {phase : SendPhase}

theorem unwritten_of_not_registered (h : ¬ registered phase) : unwritten lineBytes phase = 0 := by
  cases phase with
  | lockStdin message => exact absurd trivial h
  | write message remaining => exact absurd trivial h
  | _ => rfl

/-- One call goes on: it has no more to write than the pipe loses room for. -/
theorem Swept.move {closed : Bool} {room room' : Nat} {channels channels' : Fin n → Oneshot}
    {sends : Fin n → SendPhase} (h : Swept lineBytes closed room channels sends)
    (hchannels : ∀ j, channels' j = .waiting → channels j = .waiting)
    (htold : registered phase → channels' i = .waiting → closed = true ∧ 0 < unwritten lineBytes phase)
    (hroom : closed = true ∨
      unwritten lineBytes phase + room ≤ unwritten lineBytes (sends i) + room') :
    Swept lineBytes closed room' channels' (Function.update sends i phase) := by
  refine ⟨fun j hj hwaiting => ?_, ?_⟩
  · by_cases hji : j = i
    · subst hji
      rw [Function.update_self] at hj ⊢
      exact htold hj hwaiting
    · rw [Function.update_of_ne hji] at hj ⊢
      exact h.told j hj (hchannels j hwaiting)
  · rcases hroom with hclosed | hroom
    · exact .inl hclosed
    · refine h.writable.imp_right fun hle => ?_
      have hsum := sum_update (unwritten lineBytes) sends i phase
      omega

/-- A call goes on to where it is not registered. -/
theorem Swept.leave {closed : Bool} {room : Nat} {channels channels' : Fin n → Oneshot}
    {sends : Fin n → SendPhase} (h : Swept lineBytes closed room channels sends)
    (hchannels : ∀ j, channels' j = .waiting → channels j = .waiting) (hphase : ¬ registered phase) :
    Swept lineBytes closed room channels' (Function.update sends i phase) := by
  refine h.move hchannels (fun hr => absurd hr hphase) (.inr ?_)
  rw [unwritten_of_not_registered hphase]
  omega

theorem waiting_of_dropped {waiters : HashMap String (Fin n)} {channels : Fin n → Oneshot} {k : String}
    (j : Fin n) (h : settled waiters channels k .dropped j = .waiting) : channels j = .waiting :=
  ((settled_waiting (show Oneshot.dropped ≠ .waiting from nofun)).1 h).1

def SweptState (lineBytes : WorkerMessage → Nat) (s : DelegateHandle n) : Prop :=
  Swept lineBytes s.stdinClosed s.room s.channels s.sends

theorem SweptState.writeStdin (h : SweptState lineBytes s) {message : WorkerMessage} {remaining : Nat}
    (hphase : s.sends i = .write message remaining)
    (hstep : s.writeStdin i message remaining = some t) : SweptState lineBytes t := by
  have hunwritten : unwritten lineBytes (s.sends i) = remaining := by
    rw [hphase]
    rfl
  have hregistered : registered (s.sends i) := by
    rw [hphase]
    trivial
  unfold DelegateHandle.writeStdin at hstep
  split at hstep
  · rename_i hzero
    obtain rfl := Option.some.inj hstep
    refine Swept.move h (fun _ => id) (fun _ hwaiting => ?_) (.inr ?_)
    · have := (h.told i hregistered hwaiting).2
      omega
    · show 0 + s.room ≤ unwritten lineBytes (s.sends i) + s.room
      omega
  · split at hstep
    · obtain rfl := Option.some.inj hstep
      exact Swept.leave h (fun _ => id) id
    · rename_i hopen
      split at hstep
      · cases hstep
      · obtain rfl := Option.some.inj hstep
        refine Swept.move h (fun _ => id) (fun _ hwaiting => ?_) (.inr ?_)
        · exact absurd (h.told i hregistered hwaiting).1 hopen
        · show remaining - s.room + s.room ≤ unwritten lineBytes (s.sends i) + (s.room - remaining)
          omega

theorem SweptState.register (h : SweptState lineBytes s) {message : WorkerMessage}
    (hclosed : s.stdinClosed = true) : SweptState lineBytes (s.register i message) := by
  refine Swept.move h waiting_of_dropped (fun hr _ => ⟨hclosed, ?_⟩) (.inl hclosed)
  split at hr
  · cases hr
  · rename_i hnone
    rw [if_neg hnone]
    exact Nat.succ_pos _

theorem SweptState.sendStep (h : SweptState lineBytes s) {spawnError : Option DelegateHandle.ProxyError}
    (horderly : ∀ message, s.sends i = .register message → s.stdinClosed = true)
    (hstep : s.sendStep lineBytes exitText i spawnError = some t) : SweptState lineBytes t := by
  unfold DelegateHandle.sendStep at hstep
  split at hstep
  case h_1 => cases hstep
  case h_2 => cases hstep
  case h_3 => cases hstep
  case h_4 message hphase =>
    split at hstep
    · obtain rfl := Option.some.inj hstep
      exact Swept.leave h (fun _ => id) id
    · split at hstep
      · obtain rfl := Option.some.inj hstep
        exact Swept.leave h (fun _ => id) id
      · obtain rfl := Option.some.inj hstep
        exact Swept.leave h (fun _ => id) id
  case h_5 message hphase =>
    obtain rfl := Option.some.inj hstep
    exact h.register (horderly message hphase)
  case h_6 message hphase =>
    split at hstep
    · obtain rfl := Option.some.inj hstep
      have hold : registered (s.sends i) ∧ unwritten lineBytes (s.sends i) = lineBytes message + 1 := by
        rw [hphase]
        exact ⟨trivial, rfl⟩
      refine Swept.move h (fun _ => id) (fun _ hwaiting => ?_) (.inr (by rw [hold.2]; exact Nat.le_refl _))
      exact ⟨(h.told i hold.1 hwaiting).1, Nat.succ_pos _⟩
    · cases hstep
  case h_7 message remaining hphase => exact h.writeStdin hphase hstep
  case h_8 message hphase =>
    obtain rfl := Option.some.inj hstep
    exact Swept.leave h waiting_of_dropped id
  case h_9 message hphase =>
    obtain ⟨phase, hreceived, rfl⟩ := Option.map_eq_some_iff.1 hstep
    obtain ⟨result, rfl, -⟩ := received_returned hreceived
    exact Swept.leave h (fun _ => id) id

/-! ## The steps of a call -/

/-- How many steps a call can still take. -/
def rank (lineBytes : WorkerMessage → Nat) : SendPhase → Nat
  | .ensureSpawned message => lineBytes message + 7
  | .register message => lineBytes message + 6
  | .lockStdin message => lineBytes message + 5
  | .write _ remaining => remaining + 3
  | .unregister _ => 2
  | .await _ => 1
  | .idle | .notSpawned _ _ | .returned _ _ => 0

/-- What a step of a call leaves to others, and that it brings the call further. -/
structure Advances (lineBytes : WorkerMessage → Nat) (i : Fin n) (s t : DelegateHandle n) : Prop where
  sends : ∃ phase, t.sends = Function.update s.sends i phase ∧
    rank lineBytes phase < rank lineBytes (s.sends i)
  reader : t.reader = s.reader
  channels : ∀ j r, t.channels j = .sent (.ok r) → s.channels j = .sent (.ok r)

theorem sent_of_dropped {waiters : HashMap String (Fin n)} {channels : Fin n → Oneshot} {k : String}
    (j : Fin n) (r : WorkerResponse) (h : settled waiters channels k .dropped j = .sent (.ok r)) :
    channels j = .sent (.ok r) := by
  by_cases hj : waiters.lookup k = some j
  · rw [settled_self hj] at h
    cases h
  · rwa [settled_of_ne hj] at h

theorem Advances.of_phase (hphase : s.sends i = phase) {phase' : SendPhase}
    (hsends : t.sends = Function.update s.sends i phase') (hreader : t.reader = s.reader)
    (hchannels : ∀ j r, t.channels j = .sent (.ok r) → s.channels j = .sent (.ok r))
    (hrank : rank lineBytes phase' < rank lineBytes phase) : Advances lineBytes i s t :=
  ⟨⟨phase', hsends, hphase ▸ hrank⟩, hreader, hchannels⟩

theorem writeStdin_advances {message : WorkerMessage} {remaining : Nat}
    (hphase : s.sends i = .write message remaining)
    (hstep : s.writeStdin i message remaining = some t) : Advances lineBytes i s t := by
  unfold DelegateHandle.writeStdin at hstep
  split at hstep
  · obtain rfl := Option.some.inj hstep
    refine .of_phase hphase rfl rfl (fun _ _ => id) ?_
    show 1 < remaining + 3
    omega
  · split at hstep
    · obtain rfl := Option.some.inj hstep
      refine .of_phase hphase rfl rfl (fun _ _ => id) ?_
      show 2 < remaining + 3
      omega
    · split at hstep
      · cases hstep
      · obtain rfl := Option.some.inj hstep
        refine .of_phase hphase rfl rfl (fun _ _ => id) ?_
        show remaining - s.room + 3 < remaining + 3
        omega

theorem register_advances {message : WorkerMessage} (hphase : s.sends i = .register message) :
    Advances lineBytes i s (s.register i message) := by
  refine .of_phase hphase rfl rfl sent_of_dropped ?_
  split
  · show 0 < lineBytes message + 6
    omega
  · show lineBytes message + 5 < lineBytes message + 6
    omega

theorem sendStep_advances {spawnError : Option DelegateHandle.ProxyError}
    (hstep : s.sendStep lineBytes exitText i spawnError = some t) : Advances lineBytes i s t := by
  unfold DelegateHandle.sendStep at hstep
  split at hstep
  case h_1 => cases hstep
  case h_2 => cases hstep
  case h_3 => cases hstep
  case h_4 message hphase =>
    have hrank : lineBytes message + 6 < lineBytes message + 7 := by omega
    split at hstep
    · obtain rfl := Option.some.inj hstep
      exact .of_phase hphase rfl rfl (fun _ _ => id) hrank
    · split at hstep
      · obtain rfl := Option.some.inj hstep
        exact .of_phase hphase rfl rfl (fun _ _ => id) hrank
      · obtain rfl := Option.some.inj hstep
        refine .of_phase hphase rfl rfl (fun _ _ => id) ?_
        show 0 < lineBytes message + 7
        omega
  case h_5 message hphase =>
    obtain rfl := Option.some.inj hstep
    exact register_advances hphase
  case h_6 message hphase =>
    split at hstep
    · obtain rfl := Option.some.inj hstep
      refine .of_phase hphase rfl rfl (fun _ _ => id) ?_
      show lineBytes message + 1 + 3 < lineBytes message + 5
      omega
    · cases hstep
  case h_7 message remaining hphase => exact writeStdin_advances hphase hstep
  case h_8 message hphase =>
    obtain rfl := Option.some.inj hstep
    refine .of_phase hphase rfl rfl sent_of_dropped ?_
    show 0 < 2
    omega
  case h_9 message hphase =>
    obtain ⟨phase, hreceived, rfl⟩ := Option.map_eq_some_iff.1 hstep
    obtain ⟨result, rfl, -⟩ := received_returned hreceived
    refine .of_phase hphase rfl rfl (fun _ _ => id) ?_
    show 0 < 1
    omega

/-! ## Runs -/

/-- Where the reader stops, the registered calls were all told so. -/
theorem sweptState_of_readerStep (hinv : DelegateInv t) {failure : Option String}
    (horderly : Orderly lineBytes s (.reader failure)) (hstep : s.readerStep failure = some t)
    (hstopped : t.reader = .stopped) : SweptState lineBytes t := by
  unfold DelegateHandle.readerStep at hstep
  split at hstep
  case h_1 =>
    split at hstep
    · split at hstep
      · obtain rfl := Option.some.inj hstep
        cases hstopped
      · cases hstep
    all_goals
      obtain rfl := Option.some.inj hstep
      cases hstopped
  case h_2 =>
    split at hstep
    all_goals
      obtain rfl := Option.some.inj hstep
      cases hstopped
  case h_3 =>
    split at hstep
    all_goals
      obtain rfl := Option.some.inj hstep
      cases hstopped
  case h_4 =>
    obtain rfl := Option.some.inj hstep
    dsimp only at hstopped
    split at hstopped
    all_goals cases hstopped
  case h_5 message hphase =>
    obtain rfl := Option.some.inj hstep
    dsimp only at hstopped
    split at hstopped
    · rename_i hfailure
      have hnone := horderly.1 message hphase hfailure
      refine ⟨fun i hi => absurd hi (hnone i), .inr ?_⟩
      rw [Finset.sum_eq_zero fun i _ => unwritten_of_not_registered (hnone i)]
      exact Nat.zero_le _
    · cases hstopped
  case h_6 message hphase =>
    obtain rfl := Option.some.inj hstep
    refine ⟨fun i hi hwaiting => ?_, horderly.2 message hphase⟩
    -- the table is empty, so nobody in it waits
    obtain ⟨k, hk⟩ : ∃ k, key (s.sends i) = some k := by
      cases hphase : s.sends i with
      | lockStdin message => exact ⟨_, rfl⟩
      | write message remaining => exact ⟨_, rfl⟩
      | await message => exact ⟨_, rfl⟩
      | _ =>
        have hi : registered (s.sends i) := hi
        rw [hphase] at hi
        cases hi
    cases (hinv.waits.keyed k i).2 ⟨hk, hwaiting⟩
  case h_7 => cases hstep

theorem sweptState_of_reach
    (h : Reach (delegateHandle n lineBytes exitText capacity) (Orderly lineBytes) s) :
    s.reader = .stopped → SweptState lineBytes s := by
  refine h.invariant (I := fun s => s.reader = .stopped → SweptState lineBytes s)
    (fun s hinit hstopped => ?_) fun s l t hs ih horderly hstep hstopped => ?_
  · subst hinit
    cases hstopped
  · have hinv := (DelegateInv.of_reachable hs.reachable).step hstep
    have hstep : delegateStep lineBytes exitText capacity s l = some t := hstep
    cases l with
    | call i message =>
      simp only [delegateStep] at hstep
      split at hstep
      · obtain rfl := Option.some.inj hstep
        exact Swept.leave (ih hstopped) (fun _ => id) id
      · cases hstep
    | send i spawnError =>
      have hbefore : s.reader = .stopped := (sendStep_advances hstep).reader ▸ hstopped
      exact (ih hbefore).sendStep (fun message hphase => horderly message hphase hbefore) hstep
    | reader failure =>
      simp only [delegateStep] at hstep
      split at hstep
      · exact sweptState_of_readerStep hinv horderly hstep hstopped
      · cases hstep
    | emit line | closeStdout | exit status =>
      simp only [delegateStep] at hstep
      split at hstep
      · obtain rfl := Option.some.inj hstep
        exact ih hstopped
      · cases hstep
    | drain bytes =>
      simp only [delegateStep] at hstep
      split at hstep
      · obtain rfl := Option.some.inj hstep
        obtain ⟨htold, hwritable⟩ := ih hstopped
        exact ⟨htold, hwritable.imp_right fun hle => Nat.le_add_right_of_le hle⟩
      · cases hstep
    | closeStdin =>
      simp only [delegateStep] at hstep
      split at hstep
      · obtain rfl := Option.some.inj hstep
        exact ⟨fun i hi hwaiting => ⟨rfl, ((ih hstopped).told i hi hwaiting).2⟩, .inl rfl⟩
      · cases hstep

/-! ## Returning -/

def IsSend : DelegateStep n → Prop
  | .send _ _ => True
  | _ => False

/-- Every call that was made has returned; one that was not told a response before has an error. -/
def AllReturn (before s : DelegateHandle n) : Prop :=
  ∀ i, s.sends i = .idle ∨ (∃ message error, s.sends i = .notSpawned message error) ∨
    ∃ message result, s.sends i = .returned message result ∧
      ∀ r, result = .ok r → before.channels i = .sent (.ok r)

/-- A call that writes can write on, or learns that nobody reads. -/
theorem SweptState.writes_on (h : SweptState lineBytes s) {message : WorkerMessage} {remaining : Nat}
    (hphase : s.sends i = .write message remaining) : s.writeStdin i message remaining ≠ none := by
  have hroom : s.stdinClosed = true ∨ remaining ≤ s.room := by
    refine h.writable.imp_right fun hle => Nat.le_trans ?_ hle
    have hsingle := Finset.single_le_sum (f := fun j => unwritten lineBytes (s.sends j))
      (fun j _ => Nat.zero_le _) (Finset.mem_univ i)
    rwa [hphase] at hsingle
  unfold DelegateHandle.writeStdin
  split
  · exact Option.some_ne_none _
  · split
    · exact Option.some_ne_none _
    · rename_i hzero hopen
      rw [if_neg]
      · exact Option.some_ne_none _
      · have := hroom.resolve_left hopen
        omega

/-- Where no call can go on, and the reader has stopped, all calls have returned. -/
theorem allReturn_of_quiet {before : DelegateHandle n} (hinv : DelegateInv s)
    (hswept : SweptState lineBytes s)
    (hbefore : ∀ j r, s.channels j = .sent (.ok r) → before.channels j = .sent (.ok r))
    (hquiet : ∀ i, s.sendStep lineBytes exitText i none = none) : AllReturn before s := by
  have hwrite : ∀ j message remaining, s.sends j ≠ .write message remaining := by
    intro j message remaining hphase
    have hnone := hquiet j
    unfold DelegateHandle.sendStep at hnone
    rw [hphase] at hnone
    exact hswept.writes_on hphase hnone
  intro i
  have hnone := hquiet i
  unfold DelegateHandle.sendStep at hnone
  cases hphase : s.sends i with
  | idle => exact .inl rfl
  | notSpawned message error => exact .inr (.inl ⟨message, error, rfl⟩)
  | returned message result =>
    refine .inr (.inr ⟨message, result, rfl, fun r hr => hbefore i r (hinv.waits.returned i r ?_)⟩)
    rw [hphase, hr]
    rfl
  | ensureSpawned message =>
    rw [hphase] at hnone
    dsimp only at hnone
    split at hnone
    all_goals cases hnone
  | register message =>
    rw [hphase] at hnone
    cases hnone
  | unregister message =>
    rw [hphase] at hnone
    cases hnone
  | lockStdin message =>
    rw [hphase] at hnone
    dsimp only at hnone
    split at hnone
    · cases hnone
    · -- whoever has the lock writes
      rename_i hheld
      obtain ⟨j, hj⟩ := Option.ne_none_iff_exists'.1 hheld
      have hwrites := (hinv.lock j).2 hj
      cases hphase : s.sends j with
      | write message remaining => exact absurd hphase (hwrite j message remaining)
      | _ =>
        dsimp only at hwrites
        rw [hphase] at hwrites
        cases hwrites
  | write message remaining => exact absurd hphase (hwrite i message remaining)
  | await message =>
    rw [hphase] at hnone
    dsimp only at hnone
    have hwaiting : s.channels i = .waiting := by
      cases hchannel : s.channels i with
      | waiting => rfl
      | dropped =>
        rw [hchannel] at hnone
        cases hnone
      | sent result =>
        rw [hchannel] at hnone
        cases result
        all_goals cases hnone
    have htold := (hswept.told i (by rw [hphase]; trivial) hwaiting).2
    rw [hphase] at htold
    exact absurd htold (Nat.lt_irrefl 0)

/-- A response that a call returns is a terminal one for its message. In orderly runs, once the reader
has stopped, all calls return without the delegate doing anything more, and with errors where they had
not been told a response by then. -/
theorem send_returns
    (h : Reach (delegateHandle n lineBytes exitText capacity) (Orderly lineBytes) s) :
    (∀ i message r, s.sends i = .returned message (.ok r) → r.isTerminal = true ∧ r.id = message.id) ∧
      (s.reader = .stopped → Settles (delegateHandle n lineBytes exitText capacity) (Orderly lineBytes)
        IsSend (AllReturn s) s) := by
  have hinv := DelegateInv.of_reachable h.reachable
  refine ⟨fun i message r hreturned => ?_, fun hstopped => ?_⟩
  · have hsent := hinv.waits.returned i r (by rw [hreturned]; rfl)
    obtain ⟨hkey, hterminal⟩ := hinv.waits.sound i r hsent
    rw [hreturned] at hkey
    exact ⟨hterminal, (Option.some.inj hkey).symm⟩
  · refine Settles.of_measure (fun t => ∑ i, rank lineBytes (t.sends i)) (I := fun t =>
      DelegateInv t ∧ SweptState lineBytes t ∧ t.reader = .stopped ∧
        ∀ j r, t.channels j = .sent (.ok r) → s.channels j = .sent (.ok r)) ?_ ?_
      ⟨hinv, sweptState_of_reach h hstopped, hstopped, fun _ _ => id⟩
    · intro t l u ⟨hinv, hswept, hstopped, hbefore⟩ hsend horderly hstep
      cases l with
      | send i spawnError =>
        have hstep : delegateStep lineBytes exitText capacity t (.send i spawnError) = some u := hstep
        have hadvances : Advances lineBytes i t u := sendStep_advances hstep
        refine ⟨⟨hinv.step hstep,
          hswept.sendStep (fun message hphase => horderly message hphase hstopped) hstep,
          hadvances.reader ▸ hstopped, fun j r hr => hbefore j r (hadvances.channels j r hr)⟩, ?_⟩
        obtain ⟨phase, hsends, hrank⟩ := hadvances.sends
        rw [hsends]
        have hsum := sum_update (rank lineBytes) t.sends i phase
        omega
      | _ => cases hsend
    · rintro t ⟨hinv, hswept, -, hbefore⟩ hquiet
      exact allReturn_of_quiet hinv hswept hbefore fun i => hquiet (.send i none) trivial

/-! ## One call -/

/-- One call, of ten bytes, to a delegate whose pipe holds so many. -/
def oneCall (capacity : Nat) : System (DelegateHandle 1) (DelegateStep 1) :=
  delegateHandle 1 (fun _ => 9) (fun status => toString status.raw) capacity

def buildMessage : WorkerMessage := .Run ⟨"app#build", "tsc", false⟩

/-- The call spawns the delegate and is about to register. -/
def spawned : List (DelegateStep 1) := [.call 0 buildMessage, .send 0 none]

/-- It registers, writes its message and waits. -/
def sent : List (DelegateStep 1) := List.replicate 4 (.send 0 none)

/-- The delegate closes its stdout, and the reader fails all waiters and stops. -/
def eof : List (DelegateStep 1) := .closeStdout :: List.replicate 4 (.reader none)

/-- Labels that are orderly in whatever state. -/
def Plain (s : DelegateHandle 1) : DelegateStep 1 → Prop
  | .send _ _ => s.reader ≠ .stopped
  | .reader failure => failure = none ∧ s.stdinClosed = true
  | _ => True

instance (s : DelegateHandle 1) : DecidablePred (Plain s)
  | .send _ _ => inferInstanceAs (Decidable (s.reader ≠ .stopped))
  | .reader failure => inferInstanceAs (Decidable (failure = none ∧ s.stdinClosed = true))
  | .call _ _ | .emit _ | .closeStdout | .drain _ | .closeStdin | .exit _ =>
    inferInstanceAs (Decidable True)

theorem orderly_of_plain (s : DelegateHandle 1) (l : DelegateStep 1) (h : Plain s l) :
    Orderly (fun _ => 9) s l := by
  cases l with
  | send i spawnError => exact fun message _ hstopped => absurd hstopped h
  | reader failure =>
    obtain ⟨rfl, hclosed⟩ := h
    exact ⟨nofun, fun _ _ => .inl hclosed⟩
  | _ => trivial

/-- The delegate is gone while the call waits. -/
theorem send_returns_gone : ∃ s, Reach (oneCall 64) (Orderly fun _ => 9) s ∧
    s.sends 0 = .await buildMessage ∧ s.reader = .stopped ∧
    Settles (oneCall 64) (Orderly fun _ => 9) IsSend (AllReturn s) s := by
  have hrun : ((oneCall 64).run Plain (.initial 1 64) (spawned ++ sent ++ .closeStdin :: eof)).map
      (fun s => (s.sends 0, s.reader)) = some (.await buildMessage, .stopped) := by
    decide
  obtain ⟨s, hs, heq⟩ := Option.map_eq_some_iff.1 hrun
  obtain ⟨hsends, hreader⟩ := Prod.mk.inj heq
  have hreach : Reach (oneCall 64) (Orderly fun _ => 9) s :=
    Reach.run_of_labels (.init rfl) (fun s l _ => orderly_of_plain s l) hs
  exact ⟨s, hreach, hsends, hreader, (send_returns hreach).2 hreader⟩

/-- The reader has stopped, and the call will not return unless the delegate does something. -/
def Stranded (capacity : Nat) (s : DelegateHandle 1) : Prop :=
  Reachable (oneCall capacity) s ∧ s.reader = .stopped ∧
    ¬ Settles (oneCall capacity) (fun _ _ => True) IsSend (AllReturn s) s

theorem sendStep_none (h : s.sendStep lineBytes exitText i none = none)
    (spawnError : Option DelegateHandle.ProxyError) :
    s.sendStep lineBytes exitText i spawnError = none := by
  unfold DelegateHandle.sendStep at h ⊢
  cases hphase : s.sends i with
  | ensureSpawned message =>
    rw [hphase] at h
    dsimp only at h
    split at h
    all_goals cases h
  | idle | notSpawned message error | returned message result => rfl
  | write message remaining =>
    rw [hphase] at h
    exact h
  | register message | lockStdin message | unregister message | await message =>
    rw [hphase] at h
    exact h

theorem stranded_of_run {capacity : Nat} {ls : List (DelegateStep 1)}
    (h : ((oneCall capacity).run (fun _ _ => True) (.initial 1 capacity) ls).map (fun s =>
      (s.reader, (s.sendStep (fun _ => 9) (fun status => toString status.raw) 0 none).isNone,
        decide (0 < rank (fun _ => 9) (s.sends 0)))) = some (.stopped, true, true)) :
    ∃ s, Stranded capacity s := by
  obtain ⟨s, hs, heq⟩ := Option.map_eq_some_iff.1 h
  obtain ⟨hreader, heq⟩ := Prod.mk.inj heq
  obtain ⟨hstuck, hrank⟩ := Prod.mk.inj heq
  refine ⟨s, .run (.init rfl) hs, hreader, not_settles_of_quiet ?_ fun hreturn => ?_⟩
  · intro l hl
    cases l with
    | send i spawnError =>
      obtain rfl := Subsingleton.elim i 0
      exact sendStep_none (Option.isNone_iff_eq_none.1 hstuck) spawnError
    | _ => cases hl
  · have hrank := of_decide_eq_true hrank
    rcases hreturn 0 with hphase | ⟨message, error, hphase⟩ | ⟨message, result, hphase, -⟩
    all_goals
      rw [hphase] at hrank
      exact Nat.lt_irrefl 0 hrank

/-- A call registers after the reader has failed all waiters. The reader cannot write its own
diagnostic. A call writes to a pipe that is full when the reader stops. -/
theorem send_stranded : (∃ s, Stranded 64 s) ∧ (∃ s, Stranded 64 s) ∧ ∃ s, Stranded 4 s := by
  refine ⟨?_, ?_, ?_⟩
  · exact @stranded_of_run 64 (spawned ++ eof ++ sent) (by decide)
  · exact @stranded_of_run 64 (spawned ++ sent ++ [.emit (.invalid "panic"), .reader none,
      .reader (some "broken pipe")]) (by decide)
  · exact @stranded_of_run 4 (spawned ++ sent.take 3 ++ eof) (by decide)

end Luchta.Proof.Delegate
