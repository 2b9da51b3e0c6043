import Luchta.Framework.System
import Mathlib.Data.List.Perm.Basic

/-!
# Collecting replies

Requests are worked on concurrently, at most `n` at a time: the first `n` are started, and each
reply, in whatever order they arrive, is added to what was collected and starts the next request.

* `Collecting.invariant`: every request is answered, in flight or not started yet.
* `Collecting.perm_of_finished`: what is collected in the end is what handling the requests one
  after another, in some order, collects.
* `Collecting.exists_finished`: from every state the collection can finish.
-/

namespace Luchta.Framework

variable {ρ β : Type*}

structure Collecting (ρ β : Type*) where
  waiting : List ρ
  inFlight : List ρ
  collected : β

namespace Collecting

/-- The first `n` requests are started. -/
def start (n : Nat) (requests : List ρ) (init : β) : Collecting ρ β :=
  ⟨requests.drop n, requests.take n, init⟩

/-- The reply to the request in flight at `i` arrives, and the next request is started. -/
def arrive (add : β → ρ → β) (s : Collecting ρ β) (i : Nat) : Option (Collecting ρ β) :=
  s.inFlight[i]?.map fun request =>
    ⟨s.waiting.tail, s.inFlight.eraseIdx i ++ s.waiting.head?.toList, add s.collected request⟩

/-- The replies arrive in any order. -/
def system (add : β → ρ → β) (n : Nat) (requests : List ρ) (init : β) :
    System (Collecting ρ β) Nat where
  init s := s = start n requests init
  step := arrive add

def Finished (s : Collecting ρ β) : Prop := s.inFlight = []

instance (s : Collecting ρ β) : Decidable s.Finished := decidable_of_iff (s.inFlight.isEmpty = true)
  List.isEmpty_iff

variable {add : β → ρ → β} {n : Nat} {requests : List ρ} {init : β} {s t : Collecting ρ β}

/-- `answered` are the requests whose replies have arrived, in that order. -/
structure Inv (add : β → ρ → β) (n : Nat) (requests : List ρ) (init : β) (s : Collecting ρ β)
    (answered : List ρ) : Prop where
  perm : (answered ++ (s.inFlight ++ s.waiting)).Perm requests
  collected : s.collected = answered.foldl add init
  full : s.waiting ≠ [] → s.inFlight.length = n
  bounded : s.inFlight.length ≤ n

theorem Inv.start (add : β → ρ → β) (n : Nat) (requests : List ρ) (init : β) :
    Inv add n requests init (start n requests init) [] where
  perm := by
    show (requests.take n ++ requests.drop n).Perm requests
    rw [List.take_append_drop]
  collected := rfl
  full h := by
    have hlen : n < requests.length := by
      by_contra hle
      exact h (List.drop_eq_nil_of_le (Nat.le_of_not_lt hle))
    show (requests.take n).length = n
    rw [List.length_take]
    omega
  bounded := by
    show (requests.take n).length ≤ n
    rw [List.length_take]
    omega

theorem Inv.arrive {answered : List ρ} (h : Inv add n requests init s answered) {i : Nat}
    (hs : arrive add s i = some t) : ∃ request, Inv add n requests init t (answered ++ [request]) := by
  obtain ⟨request, hi, rfl⟩ := Option.map_eq_some_iff.1 hs
  obtain ⟨hlt, hget⟩ := List.getElem?_eq_some_iff.1 hi
  have hlen := List.length_eraseIdx_add_one hlt
  have herase : (request :: s.inFlight.eraseIdx i).Perm s.inFlight :=
    hget ▸ List.getElem_cons_eraseIdx_perm hlt
  refine ⟨request, ?_, ?_, ?_, ?_⟩
  · refine .trans ?_ h.perm
    show (answered ++ [request] ++
      (s.inFlight.eraseIdx i ++ s.waiting.head?.toList ++ s.waiting.tail)).Perm _
    rw [List.append_assoc, List.append_assoc]
    refine .append_left _ ?_
    cases hw : s.waiting with
    | nil => simpa using herase
    | cons next rest => simpa using herase.append_right (next :: rest)
  · show add s.collected request = _
    rw [List.foldl_append, ← h.collected]
    rfl
  · intro hne
    show (s.inFlight.eraseIdx i ++ s.waiting.head?.toList).length = n
    have hne' : s.waiting ≠ [] := fun heq => hne (by rw [heq]; rfl)
    have hfull := h.full hne'
    obtain ⟨next, rest, hw⟩ := List.exists_cons_of_ne_nil hne'
    rw [hw, List.length_append]
    show _ + 1 = n
    omega
  · show (s.inFlight.eraseIdx i ++ s.waiting.head?.toList).length ≤ n
    have hbound := h.bounded
    cases hw : s.waiting with
    | nil =>
      rw [List.length_append]
      show _ + 0 ≤ n
      omega
    | cons next rest =>
      rw [List.length_append]
      show _ + 1 ≤ n
      omega

theorem invariant (h : Reachable (system add n requests init) s) :
    ∃ answered, Inv add n requests init s answered := by
  refine h.invariant (I := fun s => ∃ answered, Inv add n requests init s answered) (fun s hs => ?_)
    fun s i t _ hinv _ hs => ?_
  · obtain rfl : s = start n requests init := hs
    exact ⟨[], .start add n requests init⟩
  · obtain ⟨answered, hinv⟩ := hinv
    obtain ⟨request, hinv⟩ := hinv.arrive hs
    exact ⟨_, hinv⟩

theorem Inv.waiting_of_finished {answered : List ρ} (h : Inv add n requests init s answered)
    (hn : 0 < n) (hs : s.Finished) : s.waiting = [] := by
  by_contra hne
  have := h.full hne
  rw [show s.inFlight = [] from hs, List.length_nil] at this
  omega

/-- All requests have been answered, in some order. -/
theorem perm_of_finished (hn : 0 < n) (h : Reachable (system add n requests init) s)
    (hs : s.Finished) : ∃ answered : List ρ, answered.Perm requests ∧ s.collected = answered.foldl add init := by
  obtain ⟨answered, hinv⟩ := invariant h
  have hperm := hinv.perm
  rw [show s.inFlight = [] from hs, hinv.waiting_of_finished hn hs, List.append_nil,
    List.append_nil] at hperm
  exact ⟨answered, hperm, hinv.collected⟩

/-- Every reply that arrives leaves fewer to wait for. -/
theorem arrive_lt {i : Nat} (hs : arrive add s i = some t) :
    t.inFlight.length + t.waiting.length < s.inFlight.length + s.waiting.length := by
  obtain ⟨request, hi, rfl⟩ := Option.map_eq_some_iff.1 hs
  obtain ⟨hlt, -⟩ := List.getElem?_eq_some_iff.1 hi
  have hlen := List.length_eraseIdx_add_one hlt
  show (s.inFlight.eraseIdx i ++ s.waiting.head?.toList).length + s.waiting.tail.length < _
  cases hw : s.waiting with
  | nil =>
    rw [List.length_append]
    show (s.inFlight.eraseIdx i).length + 0 + 0 < s.inFlight.length + 0
    omega
  | cons next rest =>
    rw [List.length_append]
    show (s.inFlight.eraseIdx i).length + 1 + rest.length < s.inFlight.length + (rest.length + 1)
    omega

/-- A collection that always handles the oldest request in flight next finishes. -/
theorem exists_finished (h : Reachable (system add n requests init) s) :
    ∃ t, Reachable (system add n requests init) t ∧ t.Finished := by
  induction hm : s.inFlight.length + s.waiting.length using Nat.strongRecOn generalizing s with
  | ind m ih =>
    cases hf : s.inFlight with
    | nil => exact ⟨s, h, hf⟩
    | cons request rest =>
      obtain ⟨t, hstep⟩ : ∃ t, arrive add s 0 = some t := by
        rw [arrive, hf]
        exact ⟨_, rfl⟩
      exact ih _ (hm ▸ arrive_lt hstep) (.step h trivial hstep) rfl

end Collecting

end Luchta.Framework
