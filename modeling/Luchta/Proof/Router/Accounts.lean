import Luchta.Impl.MessageRouter

/-!
# The accounts of the router

Every message that was accepted is queued, in the hands of the handler that runs, open with a
generation, answered or dropped. A handler moves messages from one of these places to another.

* `RouterAt`: where they are, in a state whose slots and queue are given.
* `RouterAt.takeCurrent`, `RouterAt.sent`, `RouterAt.answered`, ...: one move.
* `RouterAt.responded`: a response moves what it settles.
-/

namespace Luchta.Proof.Router

open Luchta.Framework Luchta.Impl

/-! ## Where a message is -/

def openIds : Option Generation → List String
  | some g => g.inFlight.keys
  | none => []

/-- The ids that a response settles. -/
def settled (r : WorkerResponse) : List String := if r.isTerminal then [r.id] else []

/-- The ids of the last responses that were written. -/
def answers (s : MessageRouter) : List String := s.stdout.flatMap settled

theorem answers_eq (s : MessageRouter) :
    answers s = (s.stdout.filter (·.isTerminal)).map (·.id) := by
  rw [answers]
  induction s.stdout with
  | nil => rfl
  | cons r l ih =>
    rw [List.flatMap_cons, ih, settled]
    cases h : r.isTerminal <;> simp [h]

def acceptedIds (s : MessageRouter) : List String := s.accepted.map (·.id)

/-- A generation has written a response. -/
def heardBy (s : MessageRouter) (genId : Nat) (r : WorkerResponse) : MessageRouter :=
  if r.isTerminal then { s with heard := s.heard ++ [(genId, r.id)] } else s

/-- What the moves of a run are entered in. -/
structure Ledger where
  /-- Whether ids are distinct and the workers answer what they were sent, once. -/
  tracked : Prop
  /-- The generations from `since` on are all that anything is sent to after `before`. -/
  since : Nat
  before : List (Nat × WorkerMessage)
  dropped : List String

/-- With `current`, `draining` and `pending` as they are, `hand` is still to be sent and `due` is
still to be answered. -/
structure RouterAt (k : Ledger) (current draining : Option Generation)
    (pending hand : List WorkerMessage) (due : List String) (s : MessageRouter) : Prop where
  current_eq : s.current = current
  draining_eq : s.draining = draining
  pending_eq : s.pending = pending
  one : current = none ∨ draining = none
  older : ∀ g, current = some g ∨ draining = some g → g.id < s.nextGenId
  sentOlder : ∀ e ∈ s.sent, e.1 < s.nextGenId
  /-- A generation has in flight what it was sent and has not answered. -/
  flight : ∀ g, current = some g ∨ draining = some g →
    ∀ m, (g.id, m) ∈ s.sent → (g.id, m.id) ∈ s.heard ∨ m.id ∈ g.inFlight
  order : (s.sent.map Prod.snd ++ (hand ++ pending)).Sublist s.accepted
  sinceLe : k.since ≤ s.nextGenId
  fresh : ∀ g, current = some g → k.since ≤ g.id
  later : ∃ l, s.sent = k.before ++ l ∧ ∀ e ∈ l, k.since ≤ e.1
  distinct : k.tracked → (acceptedIds s).Nodup
  balance : k.tracked → ∀ x, (pending.map (·.id)).count x + (hand.map (·.id)).count x +
    (openIds current).count x + (openIds draining).count x + due.count x + (answers s).count x +
    k.dropped.count x = (acceptedIds s).count x

namespace RouterAt

variable {k : Ledger} {current draining : Option Generation} {g : Generation}
  {pending hand : List WorkerMessage} {due : List String} {m : WorkerMessage} {s : MessageRouter}

/-! ## Moves -/

/-- What a generation has in flight becomes due once it leaves its slot. -/
theorem takeCurrent (h : RouterAt k (some g) draining pending hand [] s) :
    RouterAt k none draining pending hand g.inFlight.keys { s with current := none } where
  __ := h
  current_eq := rfl
  one := .inl rfl
  older g' hg' := h.older g' (.inr (hg'.resolve_left nofun))
  flight g' hg' := h.flight g' (.inr (hg'.resolve_left nofun))
  fresh g' hg' := nomatch hg'
  balance ht x := by
    have := h.balance ht x
    simp only [openIds, List.count_nil] at this ⊢
    show _ + (answers s).count x + _ = (acceptedIds s).count x
    omega

theorem takeDraining (h : RouterAt k current (some g) pending hand [] s) :
    RouterAt k current none pending hand g.inFlight.keys { s with draining := none } where
  __ := h
  draining_eq := rfl
  one := .inr rfl
  older g' hg' := h.older g' (.inl (hg'.resolve_right nofun))
  flight g' hg' := h.flight g' (.inl (hg'.resolve_right nofun))
  balance ht x := by
    have := h.balance ht x
    simp only [openIds, List.count_nil] at this ⊢
    show _ + (answers s).count x + _ = (acceptedIds s).count x
    omega

theorem drain (h : RouterAt k (some g) draining pending hand due s) :
    RouterAt k none (some g) pending hand due { s with current := none, draining := some g } where
  __ := h
  current_eq := rfl
  draining_eq := rfl
  one := .inl rfl
  older g' hg' := h.older g' (.inl (hg'.resolve_left nofun))
  flight g' hg' := h.flight g' (.inl (hg'.resolve_left nofun))
  fresh g' hg' := nomatch hg'
  balance ht x := by
    obtain rfl : draining = none := h.one.resolve_left nofun
    have := h.balance ht x
    simp only [openIds, List.count_nil] at this ⊢
    show _ + (answers s).count x + _ = (acceptedIds s).count x
    omega

theorem answered {r : WorkerResponse}
    (h : RouterAt k current draining pending hand (settled r ++ due) s) :
    RouterAt k current draining pending hand due { s with stdout := s.stdout ++ [r] } where
  __ := h
  balance ht x := by
    have := h.balance ht x
    have hanswers : answers { s with stdout := s.stdout ++ [r] } = answers s ++ settled r := by
      simp [answers]
    rw [hanswers]
    show _ = (acceptedIds s).count x
    simp only [List.count_append] at this ⊢
    omega

/-- A message that was not sent is due. -/
theorem unsent (h : RouterAt k current draining pending (m :: hand) due s) :
    RouterAt k current draining pending hand (m.id :: due) s where
  __ := h
  order := List.Sublist.trans (((List.sublist_cons_self m _).append_left _)) h.order
  balance ht x := by
    have := h.balance ht x
    simp only [List.map_cons, List.count_cons] at this ⊢
    omega

theorem pick (h : RouterAt k current draining pending [] due s) :
    RouterAt k current draining [] pending due { s with pending := [] } where
  __ := h
  pending_eq := rfl
  order := by simpa using h.order
  balance ht x := by
    have := h.balance ht x
    simp only [List.map_nil, List.count_nil] at this ⊢
    show _ + (answers s).count x + _ = (acceptedIds s).count x
    omega

/-- A message that was just accepted, with nothing queued, is at hand. -/
theorem accepted (h : RouterAt k current draining [] [] due s)
    (hm : k.tracked → m.id ∉ acceptedIds s) :
    RouterAt k current draining [] [m] due { s with accepted := s.accepted ++ [m] } where
  __ := h
  order := by simpa using h.order.append_right [m]
  distinct ht := by
    have := h.distinct ht
    simp only [acceptedIds, List.map_append, List.map_cons, List.map_nil] at this ⊢
    exact List.nodup_append.2 ⟨this, List.nodup_singleton _, fun a ha b hb hab =>
      hm ht (List.mem_singleton.1 hb ▸ hab ▸ ha)⟩
  balance ht x := by
    have := h.balance ht x
    simp only [acceptedIds, List.map_append, List.map_cons, List.map_nil, List.count_append,
      List.count_nil] at this ⊢
    show _ + (answers s).count x + _ = _
    omega

theorem queued (h : RouterAt k none draining pending [] due s)
    (hm : k.tracked → m.id ∉ acceptedIds s) :
    RouterAt k none draining (pending ++ [m]) [] due
      { s with accepted := s.accepted ++ [m], pending := s.pending ++ [m] } where
  __ := h
  pending_eq := by
    show s.pending ++ [m] = _
    rw [h.pending_eq]
  order := by simpa using h.order.append_right [m]
  distinct ht := by
    have := h.distinct ht
    simp only [acceptedIds, List.map_append, List.map_cons, List.map_nil] at this ⊢
    exact List.nodup_append.2 ⟨this, List.nodup_singleton _, fun a ha b hb hab =>
      hm ht (List.mem_singleton.1 hb ▸ hab ▸ ha)⟩
  balance ht x := by
    have := h.balance ht x
    simp only [acceptedIds, List.map_append, List.map_cons, List.map_nil, List.count_append,
      List.count_nil] at this ⊢
    show _ + (answers s).count x + _ = _
    omega

/-- The id of a message at hand is not in flight yet. -/
theorem not_open (h : RouterAt k current draining pending (m :: hand) due s) (ht : k.tracked) :
    m.id ∉ openIds current := by
  have hle := List.nodup_iff_count_le_one.1 (h.distinct ht) m.id
  have hbal := h.balance ht m.id
  simp only [List.map_cons, List.count_cons_self] at hbal
  exact List.count_eq_zero.1 (by omega)

theorem sent {g' : Generation} {taken : Bool} (hsend : g.send taken m = some g')
    (h : RouterAt k (some g) draining pending (m :: hand) due s) :
    RouterAt k (some g') draining pending hand due
      { s with current := some g', sent := s.sent ++ [(g'.id, m)] } := by
  obtain ⟨-, hg'⟩ := (Option.ite_none_right_eq_some ..).1 hsend
  obtain rfl := Option.some.inj hg'
  have hnone : draining = none := h.one.resolve_left nofun
  subst hnone
  refine { h with current_eq := rfl, one := .inr rfl, older := ?_, sentOlder := ?_, flight := ?_,
                  order := ?_, fresh := ?_, later := ?_, balance := ?_ }
  · simpa using h.older
  · intro e he
    rcases List.mem_append.1 he with he | he
    · exact h.sentOlder e he
    · obtain rfl := List.mem_singleton.1 he
      exact h.older g (.inl rfl)
  · intro g' hg' m' hm'
    obtain rfl := Option.some.inj (hg'.resolve_right nofun)
    show _ ∨ m'.id ∈ g.inFlight.insert _ _
    rw [AList.mem_insert]
    rcases List.mem_append.1 hm' with hm' | hm'
    · exact (h.flight g (.inl rfl) m' hm').imp_right .inr
    · obtain rfl := (Prod.mk.inj (List.mem_singleton.1 hm')).2
      exact .inr (.inl rfl)
  · simpa using h.order
  · simpa using h.fresh
  · obtain ⟨l, hl, hsince⟩ := h.later
    refine ⟨l ++ [(g.id, m)], by simp [hl], fun e he => ?_⟩
    rcases List.mem_append.1 he with he | he
    · exact hsince e he
    · obtain rfl := List.mem_singleton.1 he
      exact h.fresh g rfl
  · intro ht x
    have hbal := h.balance ht x
    have hnot : m.id ∉ g.inFlight.keys := h.not_open ht
    simp only [openIds, List.map_cons, List.count_cons, AList.keys_insert,
      List.erase_of_not_mem hnot] at hbal ⊢
    show _ + (answers s).count x + _ = (acceptedIds s).count x
    omega

theorem spawned (h : RouterAt k none none pending hand due s) :
    RouterAt k (some (.new s.nextGenId)) none pending hand due
      { s with current := some (.new s.nextGenId), nextGenId := s.nextGenId + 1 } where
  __ := h
  current_eq := rfl
  one := .inr rfl
  older g hg := by
    obtain rfl := Option.some.inj (hg.resolve_right nofun)
    exact Nat.lt_succ_self _
  sentOlder e he := Nat.lt_succ_of_lt (h.sentOlder e he)
  flight g hg m hm := by
    obtain rfl := Option.some.inj (hg.resolve_right nofun)
    exact absurd (h.sentOlder _ hm) (Nat.lt_irrefl _)
  sinceLe := Nat.le_succ_of_le h.sinceLe
  fresh g hg := by
    obtain rfl := Option.some.inj hg
    exact h.sinceLe
  balance := h.balance

theorem closed (h : RouterAt k current draining pending hand due s) :
    RouterAt k (current.map .closeStdin) draining pending hand due
      { s with current := s.current.map .closeStdin } := by
  cases current with
  | none => exact { h with current_eq := by show s.current.map _ = _; rw [h.current_eq] }
  | some g =>
    have hd : draining = none := h.one.resolve_left nofun
    subst hd
    exact { h with
      current_eq := by show s.current.map _ = _; rw [h.current_eq]
      one := .inr rfl
      older := by simpa [Generation.closeStdin] using h.older
      flight := by simpa [Generation.closeStdin] using h.flight
      fresh := by simpa [Generation.closeStdin] using h.fresh
      balance := h.balance }

/-- What is queued is dropped. -/
theorem drop (h : RouterAt k current draining pending [] due s) :
    RouterAt { k with dropped := pending.map (·.id) ++ k.dropped } current draining [] [] due
      { s with pending := [] } where
  __ := h
  pending_eq := rfl
  order := by
    refine List.Sublist.trans ?_ h.order
    simp
  balance ht x := by
    have := h.balance ht x
    simp only [List.map_nil, List.count_nil, List.count_append] at this ⊢
    show _ + (answers s).count x + _ = (acceptedIds s).count x
    omega

/-- Without a current generation everything that is sent is sent to a later one. -/
theorem rebase (h : RouterAt k none draining pending hand due s) :
    RouterAt { k with since := s.nextGenId, before := s.sent } none draining pending hand due s where
  __ := h
  sinceLe := Nat.le_refl _
  fresh _ hg := nomatch hg
  later := ⟨[], by simp, by simp⟩

end RouterAt

/-! ## Responses -/

theorem heardBy_heard (s : MessageRouter) (genId : Nat) (r : WorkerResponse) {e : Nat × String} :
    e ∈ (heardBy s genId r).heard ↔ e ∈ s.heard ∨ r.isTerminal ∧ e = (genId, r.id) := by
  rw [heardBy]
  split <;> simp [*]

theorem count_onResponse {g : Generation} {r : WorkerResponse} (x : String)
    (hr : r.isTerminal → r.id ∈ g.inFlight) :
    (g.onResponse r).inFlight.keys.count x + (settled r).count x = g.inFlight.keys.count x := by
  rw [Generation.onResponse, settled]
  split
  · rename_i ht
    have hmem : 1 ≤ g.inFlight.keys.count r.id := List.count_pos_iff.2 (hr ht)
    show (g.inFlight.erase r.id).keys.count x + _ = _
    rw [AList.keys_erase, List.count_erase, List.count_singleton]
    by_cases hx : r.id = x
    · subst hx
      simp
      omega
    · simp [hx]
  · simp

theorem flight_onResponse {g : Generation} {r : WorkerResponse} {s : MessageRouter}
    (h : ∀ m, (g.id, m) ∈ s.sent → (g.id, m.id) ∈ s.heard ∨ m.id ∈ g.inFlight) (m : WorkerMessage)
    (hm : (g.id, m) ∈ s.sent) :
    (g.id, m.id) ∈ (heardBy s g.id r).heard ∨ m.id ∈ (g.onResponse r).inFlight := by
  rw [heardBy_heard, Generation.onResponse]
  by_cases hx : m.id = r.id ∧ r.isTerminal
  · exact .inl (.inr ⟨hx.2, by rw [hx.1]⟩)
  · refine (h m hm).imp .inl fun hopen => ?_
    split
    · rename_i ht
      exact AList.mem_erase.2 ⟨fun heq => hx ⟨heq, ht⟩, hopen⟩
    · exact hopen

/-- A worker answers what it was sent, once. -/
def Answers (s : MessageRouter) (genId : Nat) (r : WorkerResponse) : Prop :=
  r.isTerminal →
    (genId, r.id) ∈ s.sent.map (fun e => (e.1, e.2.id)) ∧ (genId, r.id) ∉ s.heard

namespace RouterAt

variable {k : Ledger} {current draining : Option Generation} {g : Generation}
  {pending hand : List WorkerMessage} {due : List String} {r : WorkerResponse} {s : MessageRouter}

/-- Whatever a generation says, it only counts once its slot has been brought up to date. -/
theorem heard (genId : Nat) (h : RouterAt k current draining pending hand due s) :
    RouterAt k current draining pending hand due (heardBy s genId r) := by
  have hflight : ∀ g, current = some g ∨ draining = some g → ∀ m, (g.id, m) ∈ s.sent →
      (g.id, m.id) ∈ (heardBy s genId r).heard ∨ m.id ∈ g.inFlight := fun g hg m hm =>
    (h.flight g hg m hm).imp_left fun hm => (heardBy_heard ..).2 (.inl hm)
  rw [heardBy] at hflight ⊢
  split
  · simp only [*, if_true] at hflight
    exact { h with flight := hflight }
  · exact h

theorem open_of_answers (hg : current = some g ∨ draining = some g)
    (h : RouterAt k current draining pending hand due s) (hr : Answers s g.id r) :
    r.isTerminal → r.id ∈ g.inFlight := by
  intro ht
  obtain ⟨hsent, hnot⟩ := hr ht
  obtain ⟨⟨_, m⟩, hm, heq⟩ := List.mem_map.1 hsent
  obtain ⟨rfl, hid⟩ := Prod.mk.inj heq
  exact hid ▸ (h.flight g hg m hm).resolve_left (hid ▸ hnot)

theorem responded (h : RouterAt k (some g) draining pending hand [] s)
    (hr : k.tracked → Answers s g.id r) :
    RouterAt k (some (g.onResponse r)) draining pending hand (settled r)
      { heardBy s g.id r with current := some (g.onResponse r) } := by
  have hnone : draining = none := h.one.resolve_left nofun
  have hid : (g.onResponse r).id = g.id := by rw [Generation.onResponse]; split <;> rfl
  have hheard := h.heard (r := r) g.id
  subst hnone
  refine { hheard with current_eq := rfl, one := .inr rfl, older := ?_, flight := ?_,
                       fresh := ?_, balance := ?_ }
  · simpa [hid] using hheard.older
  · intro g' hg' m hm
    obtain rfl := Option.some.inj (hg'.resolve_right nofun)
    rw [hid] at hm ⊢
    have hsent : (heardBy s g.id r).sent = s.sent := by rw [heardBy]; split <;> rfl
    exact flight_onResponse (h.flight g (.inl rfl)) m (hsent ▸ hm)
  · simpa [hid] using hheard.fresh
  · intro ht x
    have hbal := hheard.balance ht x
    have hcount := count_onResponse x (h.open_of_answers (.inl rfl) (hr ht))
    simp only [openIds, List.count_nil] at hbal ⊢
    show _ + (answers (heardBy s g.id r)).count x + _ = (acceptedIds (heardBy s g.id r)).count x
    omega

theorem respondedDraining (h : RouterAt k none (some g) pending hand [] s)
    (hr : k.tracked → Answers s g.id r) :
    RouterAt k none (some (g.onResponse r)) pending hand (settled r)
      { heardBy s g.id r with draining := some (g.onResponse r) } := by
  have hid : (g.onResponse r).id = g.id := by rw [Generation.onResponse]; split <;> rfl
  have hheard := h.heard (r := r) g.id
  refine { hheard with draining_eq := rfl, one := .inl rfl, older := ?_, flight := ?_,
                       balance := ?_ }
  · simpa [hid] using hheard.older
  · intro g' hg' m hm
    obtain rfl := Option.some.inj (hg'.resolve_left nofun)
    rw [hid] at hm ⊢
    have hsent : (heardBy s g.id r).sent = s.sent := by rw [heardBy]; split <;> rfl
    exact flight_onResponse (h.flight g (.inr rfl)) m (hsent ▸ hm)
  · intro ht x
    have hbal := hheard.balance ht x
    have hcount := count_onResponse x (h.open_of_answers (.inr rfl) (hr ht))
    simp only [openIds, List.count_nil] at hbal ⊢
    show _ + (answers (heardBy s g.id r)).count x + _ = (acceptedIds (heardBy s g.id r)).count x
    omega

end RouterAt

end Luchta.Proof.Router
