import Mathlib.Algebra.Order.BigOperators.Group.List
import Mathlib.Algebra.Order.Group.Nat
import Mathlib.Data.List.Basic
import Mathlib.Algebra.GroupWithZero.Nat

/-!
# Searches that follow edges

A search that queues edges rather than nodes: an edge taken from the queue is looked up and passed to
an accumulator, and the edges out of its target are queued unless that target was expanded before.
An edge may be followed more than once, a target is expanded once.

* `run_ok`: with fuel for every edge of the graph the search ends, and what it passed to the
  accumulator are exactly the reachable edges that have a target.
* `follow_ok`: the same of a search that does not tell whether it had fuel enough.
-/

namespace Luchta.Framework.EdgeSearch

variable {β τ κ σ ε : Type*} [DecidableEq κ]

section Follow

variable (target : β → Except ε (Option τ)) (key : τ → κ) (next : κ → Except ε (List β))
  (add : σ → β → τ → σ)

/-- Take the oldest edge until none is left. -/
def follow : Nat → List β → List κ → σ → Except ε σ
  | 0, _, _, acc => .ok acc
  | _ + 1, [], _, acc => .ok acc
  | fuel + 1, b :: pending, visited, acc =>
    match target b with
    | .error e => .error e
    | .ok none => follow fuel pending visited acc
    | .ok (some t) =>
      if key t ∈ visited then follow fuel pending visited (add acc b t)
      else
        match next (key t) with
        | .error e => .error e
        | .ok edges => follow fuel (pending ++ edges) (visited ++ [key t]) (add acc b t)

/-- The same search, without a result where the fuel runs out before the queue is empty. -/
def run : Nat → List β → List κ → σ → Option (Except ε σ)
  | _, [], _, acc => some (.ok acc)
  | 0, _ :: _, _, _ => none
  | fuel + 1, b :: pending, visited, acc =>
    match target b with
    | .error e => some (.error e)
    | .ok none => run fuel pending visited acc
    | .ok (some t) =>
      if key t ∈ visited then run fuel pending visited (add acc b t)
      else
        match next (key t) with
        | .error e => some (.error e)
        | .ok edges => run fuel (pending ++ edges) (visited ++ [key t]) (add acc b t)

variable {target key next add}

theorem follow_of_run {fuel : Nat} {pending : List β} {visited : List κ} {acc : σ} {r : Except ε σ}
    (h : run target key next add fuel pending visited acc = some r) :
    follow target key next add fuel pending visited acc = r := by
  fun_induction follow target key next add fuel pending visited acc with
  | case1 pending visited acc =>
    cases pending with
    | nil => exact Option.some.inj h
    | cons b pending => contradiction
  | case2 => exact Option.some.inj h
  | case3 fuel visited acc b pending e he =>
    rw [run, he] at h
    exact Option.some.inj h
  | case4 fuel visited acc b pending hnone ih =>
    rw [run, hnone] at h
    exact ih h
  | case5 fuel visited acc b pending t ht hvisited ih =>
    rw [run, ht] at h
    dsimp only at h
    rw [if_pos hvisited] at h
    exact ih h
  | case6 fuel visited acc b pending t ht hnew e he =>
    rw [run, ht] at h
    dsimp only at h
    rw [if_neg hnew, he] at h
    exact Option.some.inj h
  | case7 fuel visited acc b pending t ht hnew edges hedges ih =>
    rw [run, ht] at h
    dsimp only at h
    rw [if_neg hnew, hedges] at h
    exact ih h

end Follow

variable {res : β → Option τ} {key : τ → κ} {out : κ → List β}

/-- The edges that can be reached from the seeds through targets. -/
inductive Reaches (res : β → Option τ) (key : τ → κ) (out : κ → List β) (seeds : β → Prop) :
    β → Prop
  | seed {b : β} : seeds b → Reaches res key out seeds b
  | step {b c : β} {t : τ} : Reaches res key out seeds b → res b = some t → c ∈ out (key t) →
      Reaches res key out seeds c

omit [DecidableEq κ] in
theorem Reaches.mono {seeds seeds' : β → Prop} (h : ∀ b, seeds b → seeds' b) {b : β}
    (hb : Reaches res key out seeds b) : Reaches res key out seeds' b := by
  induction hb with
  | seed hb => exact .seed (h _ hb)
  | step _ hres hc ih => exact ih.step hres hc

omit [DecidableEq κ] in
/-- Each reachable edge is reached from one of the seeds. -/
theorem reaches_iff {seeds : β → Prop} {b : β} :
    Reaches res key out seeds b ↔ seeds b ∨
      ∃ s t, seeds s ∧ res s = some t ∧ Reaches res key out (· ∈ out (key t)) b := by
  constructor
  · intro h
    induction h with
    | seed hb => exact .inl hb
    | step _ hres hc ih =>
      refine .inr ?_
      rcases ih with hb | ⟨s, t', hs, hs', hreach⟩
      · exact ⟨_, _, hb, hres, .seed hc⟩
      · exact ⟨s, t', hs, hs', hreach.step hres hc⟩
  · rintro (hb | ⟨s, t, hs, hs', hreach⟩)
    · exact .seed hb
    · induction hreach with
      | seed hb => exact (Reaches.seed hs).step hs' hb
      | step _ hres hc ih => exact ih.step hres hc

/-- The edges that are still to come from targets not expanded yet. -/
def weight (out : κ → List β) (keys visited : List κ) : Nat :=
  ((keys.filter fun k => k ∉ visited).map fun k => (out k).length).sum

theorem weight_visit {keys visited : List κ} {k : κ} (hk : k ∈ keys) (hnot : k ∉ visited) :
    (out k).length + weight out keys (visited ++ [k]) ≤ weight out keys visited := by
  have hmono : ∀ l : List κ, weight out l (visited ++ [k]) ≤ weight out l visited := by
    intro l
    refine List.Sublist.sum_le_sum (.map _ (List.monotone_filter_right _ fun a ha => ?_)) ?_
    · simp only [List.mem_append, not_or, decide_eq_true_eq] at ha ⊢
      exact ha.1
    · simp
  induction keys with
  | nil => exact absurd hk List.not_mem_nil
  | cons a keys ih =>
    by_cases ha : a = k
    · subst a
      have := hmono keys
      simp only [weight, List.filter_cons, List.mem_append, List.mem_singleton, or_true,
        not_true_eq_false, decide_false, Bool.false_eq_true, if_false, hnot, not_false_eq_true,
        decide_true, if_true, List.map_cons, List.sum_cons] at this ⊢
      omega
    · have hk : k ∈ keys := (List.mem_cons.1 hk).resolve_left (Ne.symm ha)
      have := ih hk
      by_cases hav : a ∈ visited
      · simpa [weight, hav, ha] using this
      · simp only [weight, List.filter_cons, List.mem_append, List.mem_singleton, ha, or_false, hav,
          not_false_eq_true, decide_true, if_true, List.map_cons, List.sum_cons] at this ⊢
        omega

/-- What a search keeps: `followed` are the edges passed on so far. -/
structure Inv (res : β → Option τ) (key : τ → κ) (out : κ → List β) (seeds : β → Prop) (keys : List κ)
    (fuel : Nat) (pending : List β) (visited : List κ) (followed : List (β × τ)) : Prop where
  pending_reached : ∀ b ∈ pending, Reaches res key out seeds b
  followed_reached : ∀ p ∈ followed, Reaches res key out seeds p.1 ∧ res p.1 = some p.2
  covered : ∀ b, (seeds b ∨ ∃ k ∈ visited, b ∈ out k) → b ∈ pending ∨
    ∀ t, res b = some t → (b, t) ∈ followed ∧ key t ∈ visited
  fuel_le : pending.length + weight out keys visited ≤ fuel

variable {seeds : β → Prop} {keys : List κ}

theorem Inv.mem_iff {fuel : Nat} {visited : List κ} {followed : List (β × τ)}
    (h : Inv res key out seeds keys fuel [] visited followed) {b : β} {t : τ} :
    (b, t) ∈ followed ↔ Reaches res key out seeds b ∧ res b = some t := by
  have hdone : ∀ b, Reaches res key out seeds b →
      ∀ t, res b = some t → (b, t) ∈ followed ∧ key t ∈ visited := by
    intro b hb
    induction hb with
    | seed hb => exact (h.covered _ (.inl hb)).resolve_left List.not_mem_nil
    | step _ hres hc ih =>
      exact (h.covered _ (.inr ⟨_, (ih _ hres).2, hc⟩)).resolve_left List.not_mem_nil
  exact ⟨h.followed_reached _, fun hb => (hdone b hb.1 t hb.2).1⟩

/-- An edge without a target is dropped. -/
theorem Inv.skip {fuel : Nat} {b : β} {pending : List β} {visited : List κ} {followed : List (β × τ)}
    (h : Inv res key out seeds keys (fuel + 1) (b :: pending) visited followed)
    (hres : res b = none) : Inv res key out seeds keys fuel pending visited followed where
  pending_reached c hc := h.pending_reached c (.tail _ hc)
  followed_reached := h.followed_reached
  covered c hc := by
    refine (h.covered c hc).elim (fun hmem => ?_) .inr
    refine (List.mem_cons.1 hmem).elim (fun hcb => .inr fun t ht => ?_) .inl
    rw [hcb, hres] at ht
    contradiction
  fuel_le := by
    have := h.fuel_le
    rw [List.length_cons] at this
    omega

/-- An edge to a target expanded before is passed on. -/
theorem Inv.pass {fuel : Nat} {b : β} {t : τ} {pending : List β} {visited : List κ}
    {followed : List (β × τ)} (h : Inv res key out seeds keys (fuel + 1) (b :: pending) visited followed)
    (hres : res b = some t) (hk : key t ∈ visited) :
    Inv res key out seeds keys fuel pending visited (followed ++ [(b, t)]) where
  pending_reached c hc := h.pending_reached c (.tail _ hc)
  followed_reached p hp := by
    refine (List.mem_append.1 hp).elim (h.followed_reached p) fun hp => ?_
    rw [List.mem_singleton.1 hp]
    exact ⟨h.pending_reached b (.head _), hres⟩
  covered c hc := by
    refine (h.covered c hc).elim (fun hmem => ?_) fun hc => .inr fun t' ht' => ?_
    · refine (List.mem_cons.1 hmem).elim (fun hcb => .inr fun t' ht' => ?_) .inl
      rw [hcb, hres] at ht'
      obtain rfl := Option.some.inj ht'
      rw [hcb]
      exact ⟨List.mem_append_right _ (.head _), hk⟩
    · exact ⟨List.mem_append_left _ (hc t' ht').1, (hc t' ht').2⟩
  fuel_le := by
    have := h.fuel_le
    rw [List.length_cons] at this
    omega

/-- An edge to a new target is passed on, and the edges out of the target are queued. -/
theorem Inv.expand {fuel : Nat} {b : β} {t : τ} {pending : List β} {visited : List κ}
    {followed : List (β × τ)} (h : Inv res key out seeds keys (fuel + 1) (b :: pending) visited followed)
    (hres : res b = some t) (hkeys : key t ∈ keys) (hk : key t ∉ visited) :
    Inv res key out seeds keys fuel (pending ++ out (key t)) (visited ++ [key t])
      (followed ++ [(b, t)]) where
  pending_reached c hc := by
    refine (List.mem_append.1 hc).elim (fun hc => h.pending_reached c (.tail _ hc)) fun hc => ?_
    exact (h.pending_reached b (.head _)).step hres hc
  followed_reached p hp := by
    refine (List.mem_append.1 hp).elim (h.followed_reached p) fun hp => ?_
    rw [List.mem_singleton.1 hp]
    exact ⟨h.pending_reached b (.head _), hres⟩
  covered c hc := by
    -- edges out of the new target are queued, the others were covered
    by_cases hnew : c ∈ out (key t)
    · exact .inl (List.mem_append_right _ hnew)
    · have hc : seeds c ∨ ∃ k ∈ visited, c ∈ out k := by
        refine hc.imp_right fun ⟨k, hk, hck⟩ => ⟨k, ?_, hck⟩
        refine (List.mem_append.1 hk).resolve_right fun hk => hnew ?_
        rwa [← List.mem_singleton.1 hk]
      refine (h.covered c hc).elim (fun hmem => ?_) fun hc => .inr fun t' ht' => ?_
      · refine (List.mem_cons.1 hmem).elim (fun hcb => .inr fun t' ht' => ?_)
          fun hc => .inl (List.mem_append_left _ hc)
        rw [hcb, hres] at ht'
        obtain rfl := Option.some.inj ht'
        rw [hcb]
        exact ⟨List.mem_append_right _ (.head _), List.mem_append_right _ (.head _)⟩
      · exact ⟨List.mem_append_left _ (hc t' ht').1, List.mem_append_left _ (hc t' ht').2⟩
  fuel_le := by
    have := h.fuel_le
    have : (out (key t)).length + weight out keys (visited ++ [key t]) ≤ weight out keys visited :=
      weight_visit hkeys hk
    simp only [List.length_cons, List.length_append] at *
    omega

variable {target : β → Except ε (Option τ)} {next : κ → Except ε (List β)} {add : σ → β → τ → σ}

theorem run_of_inv (htarget : ∀ b, Reaches res key out seeds b → target b = .ok (res b))
    (hnext : ∀ b t, Reaches res key out seeds b → res b = some t →
      key t ∈ keys ∧ next (key t) = .ok (out (key t)))
    {fuel : Nat} {pending : List β} {visited : List κ} {followed : List (β × τ)} (acc : σ)
    (h : Inv res key out seeds keys fuel pending visited followed) :
    ∃ followed' : List (β × τ), run target key next add fuel pending visited acc =
        some (.ok (followed'.foldl (fun acc p => add acc p.1 p.2) acc)) ∧
      ∀ b t, (b, t) ∈ followed ++ followed' ↔ Reaches res key out seeds b ∧ res b = some t := by
  induction fuel generalizing pending visited followed acc with
  | zero =>
    have := h.fuel_le
    obtain rfl : pending = [] := List.eq_nil_of_length_eq_zero (by omega)
    exact ⟨[], by rw [run]; rfl, fun b t => by rw [List.append_nil, h.mem_iff]⟩
  | succ fuel ih =>
    cases pending with
    | nil => exact ⟨[], by rw [run]; rfl, fun b t => by rw [List.append_nil, h.mem_iff]⟩
    | cons b pending =>
      have hb := h.pending_reached b (.head _)
      rw [run, htarget b hb]
      cases hres : res b with
      | none => exact ih acc (h.skip hres)
      | some t =>
        obtain ⟨hkeys, hout⟩ := hnext b t hb hres
        have hcons : ∀ {l : List (β × τ)}, followed ++ [(b, t)] ++ l = followed ++ (b, t) :: l := by
          simp
        by_cases hk : key t ∈ visited
        · obtain ⟨l, hl, hmem⟩ := ih (add acc b t) (h.pass hres hk)
          refine ⟨(b, t) :: l, ?_, fun c t' => by rw [← hcons, hmem]⟩
          dsimp only
          rw [if_pos hk]
          exact hl
        · obtain ⟨l, hl, hmem⟩ := ih (add acc b t) (h.expand hres hkeys hk)
          refine ⟨(b, t) :: l, ?_, fun c t' => by rw [← hcons, hmem]⟩
          dsimp only
          rw [if_neg hk, hout]
          exact hl

/-- The search ends, and passes on exactly the reachable edges that have a target. -/
theorem run_ok {l : List β} (htarget : ∀ b, Reaches res key out (· ∈ l) b → target b = .ok (res b))
    (hnext : ∀ b t, Reaches res key out (· ∈ l) b → res b = some t →
      key t ∈ keys ∧ next (key t) = .ok (out (key t)))
    {fuel : Nat} (hfuel : l.length + (keys.map fun k => (out k).length).sum ≤ fuel) (acc : σ) :
    ∃ followed : List (β × τ), run target key next add fuel l [] acc =
        some (.ok (followed.foldl (fun acc p => add acc p.1 p.2) acc)) ∧
      ∀ b t, (b, t) ∈ followed ↔ Reaches res key out (· ∈ l) b ∧ res b = some t := by
  have hinv : Inv res key out (· ∈ l) keys fuel l [] [] := by
    refine ⟨fun b hb => .seed hb, by simp, fun b hb => .inl ?_, by simpa [weight] using hfuel⟩
    simpa using hb
  obtain ⟨followed, hrun, hmem⟩ := run_of_inv htarget hnext acc hinv
  exact ⟨followed, hrun, hmem⟩

theorem follow_ok (htarget : ∀ b, target b = .ok (res b))
    (hnext : ∀ b t, res b = some t → key t ∈ keys ∧ next (key t) = .ok (out (key t)))
    {fuel : Nat} {l : List β} (hfuel : l.length + (keys.map fun k => (out k).length).sum ≤ fuel)
    (acc : σ) :
    ∃ followed : List (β × τ), follow target key next add fuel l [] acc =
        .ok (followed.foldl (fun acc p => add acc p.1 p.2) acc) ∧
      ∀ b t, (b, t) ∈ followed ↔ Reaches res key out (· ∈ l) b ∧ res b = some t := by
  have hrun : ∃ followed : List (β × τ), run target key next add fuel l [] acc =
      some (.ok (followed.foldl (fun acc p => add acc p.1 p.2) acc)) ∧
      ∀ b t, (b, t) ∈ followed ↔ Reaches res key out (· ∈ l) b ∧ res b = some t :=
    run_ok (fun b _ => htarget b) (fun b t _ => hnext b t) hfuel acc
  obtain ⟨followed, hrun, hmem⟩ := hrun
  exact ⟨followed, follow_of_run hrun, hmem⟩

end Luchta.Framework.EdgeSearch
