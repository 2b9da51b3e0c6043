import Mathlib.Data.List.Basic
import Mathlib.Data.List.Nodup

/-!
# A counting limiter with a condition variable

At most `limit` parties are admitted. Who comes when all places are taken waits on a condition variable;
who leaves notifies one of those who wait, whom the operating system chooses. Who has been woken looks
again, and may find that a newcomer was faster. A wake-up may come without a notification.

* `Limiter.Inv`: while someone waits, the places that are free are fewer than the parties that are awake.
* `Inv.enter`, `Inv.leave`, `Inv.wake`: every operation keeps it.
* `Inv.waiting_of_rest`: where nobody is admitted and nobody has been woken, nobody waits.
* `Occupies`: every party is in the lists of the limiter where it stands, and once.
* `load`: what is left to do, which looking again and leaving lower.
-/

namespace Luchta.Framework

structure Limiter (ι : Type*) where
  limit : Nat
  inUse : Nat
  /-- Parties blocked on the condition variable. -/
  waiting : List ι
  /-- Parties that have been woken and have not looked again. -/
  woken : List ι
  admitted : List ι
  deriving DecidableEq

namespace Limiter

variable {ι : Type*}

def new (limit : Nat) : Limiter ι := ⟨limit, 0, [], [], []⟩

/-- A party that holds the lock looks at the count. -/
def enter (s : Limiter ι) (i : ι) : Limiter ι :=
  if s.inUse < s.limit then { s with inUse := s.inUse + 1, admitted := s.admitted ++ [i] }
  else { s with waiting := s.waiting ++ [i] }

variable [DecidableEq ι]

/-- A party that has been woken looks again. -/
def retry (s : Limiter ι) (i : ι) : Option (Limiter ι) :=
  if i ∈ s.woken then some ({ s with woken := s.woken.erase i }.enter i) else none

/-- A party is woken. -/
def wake (s : Limiter ι) (i : ι) : Option (Limiter ι) :=
  if i ∈ s.waiting then some { s with waiting := s.waiting.erase i, woken := s.woken ++ [i] } else none

/-- A party leaves, and wakes one of those who wait. -/
def leave (s : Limiter ι) (i : ι) (notified : Option ι) : Option (Limiter ι) :=
  if i ∈ s.admitted then
    let s := { s with inUse := s.inUse - 1, admitted := s.admitted.erase i }
    match notified with
    | none => if s.waiting = [] then some s else none
    | some j => s.wake j
  else none

structure Inv (limit : Nat) (s : Limiter ι) : Prop where
  limit_eq : s.limit = limit
  inUse : s.inUse = s.admitted.length
  le : s.inUse ≤ limit
  awake : s.waiting ≠ [] → limit ≤ s.inUse + s.woken.length

omit [DecidableEq ι] in
theorem Inv.new (limit : Nat) : Inv limit (new limit : Limiter ι) :=
  ⟨rfl, rfl, Nat.zero_le _, fun h => absurd rfl h⟩

variable {limit : Nat} {s s' : Limiter ι} {i : ι}

omit [DecidableEq ι] in
theorem Inv.enter (h : Inv limit s) (i : ι) : Inv limit (s.enter i) := by
  have hlimit := h.limit_eq
  have hle := h.le
  unfold Limiter.enter
  split
  · refine ⟨hlimit, by simp [h.inUse], by show s.inUse + 1 ≤ limit; omega, fun hw => ?_⟩
    have hawake := h.awake hw
    show limit ≤ s.inUse + 1 + s.woken.length
    omega
  · refine ⟨hlimit, h.inUse, hle, fun _ => ?_⟩
    show limit ≤ s.inUse + s.woken.length
    omega

theorem Inv.retry (h : Inv limit s) (hs : s.retry i = some s') : Inv limit s' := by
  obtain ⟨hi, hs⟩ := Option.ite_none_right_eq_some.1 hs
  obtain rfl := Option.some.inj hs
  have hlen := List.length_erase_of_mem hi
  have hpos := List.length_pos_of_mem hi
  -- the party is awake no more, but it takes a place, or finds none free
  have hlimit := h.limit_eq
  have hle := h.le
  unfold Limiter.enter
  split
  · refine ⟨hlimit, by simp [h.inUse], by show s.inUse + 1 ≤ limit; simp only at *; omega, fun hw => ?_⟩
    have hawake := h.awake hw
    show limit ≤ s.inUse + 1 + (s.woken.erase i).length
    omega
  · rename_i hfull
    refine ⟨hlimit, h.inUse, hle, fun _ => ?_⟩
    show limit ≤ s.inUse + (s.woken.erase i).length
    simp only at hfull
    omega

theorem Inv.wake (h : Inv limit s) (hs : s.wake i = some s') : Inv limit s' := by
  obtain ⟨hi, hs⟩ := Option.ite_none_right_eq_some.1 hs
  obtain rfl := Option.some.inj hs
  refine ⟨h.limit_eq, h.inUse, h.le, fun _ => ?_⟩
  have hawake := h.awake (List.ne_nil_of_mem hi)
  show limit ≤ s.inUse + (s.woken ++ [i]).length
  rw [List.length_append]
  omega

theorem Inv.leave {notified : Option ι} (h : Inv limit s) (hs : s.leave i notified = some s') :
    Inv limit s' := by
  obtain ⟨hi, hs⟩ := Option.ite_none_right_eq_some.1 hs
  have hlen := List.length_erase_of_mem hi
  have hpos := List.length_pos_of_mem hi
  have huse := h.inUse
  have hle := h.le
  cases notified with
  | none =>
    obtain ⟨hwaiting, hs⟩ := Option.ite_none_right_eq_some.1 hs
    obtain rfl := Option.some.inj hs
    exact ⟨h.limit_eq, by show s.inUse - 1 = (s.admitted.erase i).length; omega,
      by show s.inUse - 1 ≤ limit; omega, fun hw => absurd hwaiting hw⟩
  | some j =>
    obtain ⟨hj, hs⟩ := Option.ite_none_right_eq_some.1 hs
    obtain rfl := Option.some.inj hs
    refine ⟨h.limit_eq, by show s.inUse - 1 = (s.admitted.erase i).length; omega,
      by show s.inUse - 1 ≤ limit; omega, fun _ => ?_⟩
    -- one place less is taken, and one party more is awake
    have hawake := h.awake (List.ne_nil_of_mem hj)
    show limit ≤ s.inUse - 1 + (s.woken ++ [j]).length
    rw [List.length_append, List.length_singleton]
    omega

omit [DecidableEq ι] in
/-- A wake-up is not lost. -/
theorem Inv.waiting_of_rest (h : Inv limit s) (hlimit : 0 < limit) (ha : s.admitted = [])
    (hw : s.woken = []) : s.waiting = [] := by
  by_contra hne
  have hawake := h.awake hne
  rw [h.inUse, ha, hw] at hawake
  simp at hawake
  omega

/-- Who is admitted can leave. -/
theorem exists_leave (hi : i ∈ s.admitted) : ∃ notified s', s.leave i notified = some s' := by
  cases hw : s.waiting with
  | nil => exact ⟨none, _, by rw [Limiter.leave, if_pos hi]; exact if_pos hw⟩
  | cons j waiting =>
    have hj : j ∈ s.waiting := by simp [hw]
    exact ⟨some j, _, by rw [Limiter.leave, if_pos hi]; exact if_pos hj⟩

/-! ## Where the parties are -/

/-- The list has each party with the property, once, and no other. -/
def Lists (l : List ι) (P : ι → Prop) : Prop := l.Nodup ∧ ∀ i, i ∈ l ↔ P i

namespace Lists

variable {l l' : List ι} {P P' : ι → Prop}

omit [DecidableEq ι] in
theorem congr (h : Lists l P) (hl : l'.Perm l) (hP : ∀ j, P' j ↔ P j) : Lists l' P' :=
  ⟨hl.nodup_iff.2 h.1, fun j => hl.mem_iff.trans ((h.2 j).trans (hP j).symm)⟩

omit [DecidableEq ι] in
theorem add (h : Lists l P) (hi : ¬ P i) (hl : l'.Perm (i :: l)) (hP : ∀ j, P' j ↔ j = i ∨ P j) :
    Lists l' P' := by
  refine ⟨hl.nodup_iff.2 (List.nodup_cons.2 ⟨fun hmem => hi ((h.2 i).1 hmem), h.1⟩), fun j => ?_⟩
  rw [hl.mem_iff, List.mem_cons, h.2 j, hP j]

omit [DecidableEq ι] in
theorem remove (h : Lists l P) (hl : l.Perm (i :: l')) (hP : ∀ j, P' j ↔ j ≠ i ∧ P j) : Lists l' P' := by
  obtain ⟨hi, hnodup⟩ := List.nodup_cons.1 (hl.nodup_iff.1 h.1)
  refine ⟨hnodup, fun j => ?_⟩
  rw [hP j, ← h.2 j, hl.mem_iff, List.mem_cons]
  refine ⟨fun hj => ⟨fun heq => hi (heq ▸ hj), .inr hj⟩, ?_⟩
  rintro ⟨hne, hj⟩
  exact hj.resolve_left hne

end Lists

/-- What a party wants of a limiter, or has. -/
inductive Standing
  | out
  | seeking
  | holding
  deriving DecidableEq

/-- Every party is in the lists of the limiter once, where it stands. -/
structure Occupies (s : Limiter ι) (standing : ι → Standing) : Prop where
  seeking : Lists (s.waiting ++ s.woken) (standing · = .seeking)
  holding : Lists s.admitted (standing · = .holding)

/-- Where a party stands that has looked at the count. -/
def verdict (s : Limiter ι) : Standing := if s.inUse < s.limit then .holding else .seeking

namespace Occupies

variable {standing : ι → Standing}

omit [DecidableEq ι] in
theorem new (limit : Nat) : (Limiter.new limit : Limiter ι).Occupies fun _ => .out :=
  ⟨⟨.nil, by simp [Limiter.new]⟩, ⟨.nil, by simp [Limiter.new]⟩⟩

theorem enter (h : s.Occupies standing) (hi : standing i = .out) :
    (s.enter i).Occupies (Function.update standing i s.verdict) := by
  unfold Limiter.enter verdict
  split
  · refine ⟨h.seeking.congr .rfl fun j => ?_, h.holding.add (i := i) (by simp [hi]) ?_ fun j => ?_⟩
    · by_cases hj : j = i <;> simp [hj, hi]
    · exact List.perm_append_singleton i s.admitted
    · by_cases hj : j = i <;> simp [hj]
  · refine ⟨h.seeking.add (i := i) (by simp [hi]) ?_ fun j => ?_, h.holding.congr .rfl fun j => ?_⟩
    · rw [List.append_assoc]
      exact List.perm_middle
    · by_cases hj : j = i <;> simp [hj]
    · by_cases hj : j = i <;> simp [hj, hi]

theorem retry (h : s.Occupies standing) (hs : s.retry i = some s') :
    s'.Occupies (Function.update standing i s.verdict) := by
  obtain ⟨hi, hs⟩ := Option.ite_none_right_eq_some.1 hs
  obtain rfl := Option.some.inj hs
  have hi' : standing i = .seeking := (h.seeking.2 i).1 (List.mem_append_right _ hi)
  -- the party stands outside while it looks again
  have hout : ({ s with woken := s.woken.erase i } : Limiter ι).Occupies (Function.update standing i .out) := by
    refine ⟨h.seeking.remove (i := i) ?_ fun j => ?_, h.holding.congr .rfl fun j => ?_⟩
    · exact ((List.perm_cons_erase hi).append_left s.waiting).trans List.perm_middle
    · by_cases hj : j = i <;> simp [hj]
    · by_cases hj : j = i <;> simp [hj, hi']
  have henter := hout.enter (i := i) (Function.update_self i .out standing)
  rwa [Function.update_idem] at henter

theorem wake (h : s.Occupies standing) (hs : s.wake i = some s') : s'.Occupies standing := by
  obtain ⟨hi, hs⟩ := Option.ite_none_right_eq_some.1 hs
  obtain rfl := Option.some.inj hs
  refine ⟨h.seeking.congr ?_ fun _ => .rfl, h.holding⟩
  show (s.waiting.erase i ++ (s.woken ++ [i])).Perm (s.waiting ++ s.woken)
  rw [← List.append_assoc]
  exact (List.perm_append_singleton i _).trans ((List.perm_cons_erase hi).symm.append_right s.woken)

theorem leave {notified : Option ι} (h : s.Occupies standing) (hs : s.leave i notified = some s') :
    s'.Occupies (Function.update standing i .out) := by
  obtain ⟨hi, hs⟩ := Option.ite_none_right_eq_some.1 hs
  have hi' : standing i = .holding := (h.holding.2 i).1 hi
  have hout : ({ s with inUse := s.inUse - 1, admitted := s.admitted.erase i } : Limiter ι).Occupies
      (Function.update standing i .out) := by
    refine ⟨h.seeking.congr .rfl fun j => ?_, h.holding.remove (i := i) (List.perm_cons_erase hi) fun j => ?_⟩
    · by_cases hj : j = i <;> simp [hj, hi']
    · by_cases hj : j = i <;> simp [hj]
  cases notified with
  | none =>
    obtain ⟨-, hs⟩ := Option.ite_none_right_eq_some.1 hs
    exact Option.some.inj hs ▸ hout
  | some j => exact hout.wake hs

end Occupies

/-- What is left to do: a party that waits has to be woken, to look again, and to leave. -/
def load (s : Limiter ι) : Nat := 2 * s.waiting.length + 3 * s.woken.length + 2 * s.admitted.length

omit [DecidableEq ι] in
theorem load_enter (s : Limiter ι) (i : ι) : (s.enter i).load = s.load + 2 := by
  unfold Limiter.enter load
  split
  · simp only [List.length_append, List.length_singleton]
    omega
  · simp only [List.length_append, List.length_singleton]
    omega

theorem load_retry (hs : s.retry i = some s') : s'.load < s.load := by
  obtain ⟨hi, hs⟩ := Option.ite_none_right_eq_some.1 hs
  obtain rfl := Option.some.inj hs
  have hlen := List.length_erase_of_mem hi
  have hpos := List.length_pos_of_mem hi
  rw [load_enter]
  unfold load
  simp only
  omega

theorem load_leave {notified : Option ι} (hs : s.leave i notified = some s') : s'.load < s.load := by
  obtain ⟨hi, hs⟩ := Option.ite_none_right_eq_some.1 hs
  have hlen := List.length_erase_of_mem hi
  have hpos := List.length_pos_of_mem hi
  unfold load
  cases notified with
  | none =>
    obtain ⟨-, hs⟩ := Option.ite_none_right_eq_some.1 hs
    obtain rfl := Option.some.inj hs
    simp only
    omega
  | some j =>
    obtain ⟨hj, hs⟩ := Option.ite_none_right_eq_some.1 hs
    obtain rfl := Option.some.inj hs
    have hj : j ∈ s.waiting := hj
    have hlen' := List.length_erase_of_mem hj
    have hpos' := List.length_pos_of_mem hj
    simp only [List.length_append, List.length_singleton]
    omega

end Limiter

end Luchta.Framework
