import Mathlib.Data.List.Perm.Subperm
import Mathlib.Data.List.Nodup
import Mathlib.Logic.Relation

/-!
# Worklist searches

Reachability by a visited set and a list of pending items, taken in any order: `search_ok` says that
a search with fuel for every node of the graph ends, and has visited exactly what the seeds reach.
-/

namespace Luchta.Framework.Worklist

variable {α ε : Type*} [DecidableEq α]

/-- Which of the pending items comes next. -/
structure Discipline (α : Type*) where
  pop : List α → Option (α × List α)
  perm : ∀ {l a l'}, pop l = some (a, l') → l.Perm (a :: l')
  empty : ∀ {l}, pop l = none → l = []

/-- A queue: the oldest item comes next. -/
def Discipline.fifo : Discipline α where
  pop
    | [] => none
    | a :: l => some (a, l)
  perm {l a l'} h := by
    cases l with
    | nil => contradiction
    | cons b l =>
      obtain ⟨rfl, rfl⟩ := Prod.mk.inj (Option.some.inj h)
      exact .refl _
  empty {l} h := by
    cases l with
    | nil => rfl
    | cons b l => contradiction

/-- A stack: the newest item comes next. -/
def Discipline.lifo : Discipline α where
  pop l := l.getLast?.map fun a => (a, l.dropLast)
  perm {l a l'} h := by
    obtain ⟨b, hb, heq⟩ := Option.map_eq_some_iff.1 h
    obtain ⟨rfl, rfl⟩ := Prod.mk.inj heq
    rw [← List.perm_append_singleton _ _ |>.congr_right]
    exact .of_eq (List.dropLast_append_getLast? _ hb).symm
  empty {l} h := by
    rwa [Option.map_eq_none_iff, List.getLast?_eq_none_iff] at h

/-- What was ever seen, and what of it has yet to be expanded. -/
structure State (α : Type*) where
  visited : List α
  pending : List α

/-- `if visited.insert(a) { pending.push(a) }`. -/
def State.visit (s : State α) (a : α) : State α :=
  if a ∈ s.visited then s else ⟨s.visited ++ [a], s.pending ++ [a]⟩

def State.visitAll (s : State α) (l : List α) : State α := l.foldl State.visit s

/-- Expand pending items until none is left. -/
def search (D : Discipline α) (next : α → Except ε (List α)) :
    Nat → State α → Except ε (List α)
  | 0, s => .ok s.visited
  | fuel + 1, s =>
    match D.pop s.pending with
    | none => .ok s.visited
    | some (a, pending) => do
      let l ← next a
      search D next fuel (State.visitAll ⟨s.visited, pending⟩ l)

/-- Visiting adds the same new items to both lists. -/
theorem exists_visitAll (s : State α) (l : List α) : ∃ new : List α,
    s.visitAll l = ⟨s.visited ++ new, s.pending ++ new⟩ ∧ new.Nodup ∧ new.Disjoint s.visited ∧
      ∀ a, a ∈ s.visited ∨ a ∈ new ↔ a ∈ s.visited ∨ a ∈ l := by
  induction l generalizing s with
  | nil => exact ⟨[], by simp [State.visitAll]⟩
  | cons b l ih =>
    obtain ⟨new, hnew, hnd, hdisj, hmem⟩ := ih (s.visit b)
    rw [State.visitAll, List.foldl_cons, ← State.visitAll, hnew]
    unfold State.visit at hdisj hmem ⊢
    split at hdisj
    · rename_i hb
      rw [if_pos hb] at hmem ⊢
      refine ⟨new, rfl, hnd, hdisj, fun a => (hmem a).trans ?_⟩
      simp only [List.mem_cons]
      exact ⟨fun h => h.imp_right .inr, fun h => h.elim .inl fun h => h.elim (fun e => .inl (e ▸ hb)) .inr⟩
    · rename_i hb
      rw [if_neg hb] at hmem ⊢
      simp only [List.disjoint_append_right, List.disjoint_singleton] at hdisj
      refine ⟨b :: new, by simp, List.nodup_cons.2 ⟨hdisj.2, hnd⟩, ?_, fun a => ?_⟩
      · exact List.disjoint_cons_left.2 ⟨hb, hdisj.1⟩
      · have := hmem a
        simp only [List.mem_append, List.mem_cons] at this ⊢
        tauto

/-- What a search keeps: everything visited is reachable, and everything expanded is closed. -/
structure SearchInv (edge : α → α → Prop) (nodes seeds : List α) (fuel : Nat) (s : State α) :
    Prop where
  nodup : s.visited.Nodup
  pending_nodup : s.pending.Nodup
  pending_visited : ∀ a ∈ s.pending, a ∈ s.visited
  visited_nodes : ∀ a ∈ s.visited, a ∈ nodes
  seeds_visited : ∀ a ∈ seeds, a ∈ s.visited
  reachable : ∀ a ∈ s.visited, ∃ b ∈ seeds, Relation.ReflTransGen edge b a
  closed : ∀ a ∈ s.visited, a ∉ s.pending → ∀ b, edge a b → b ∈ s.visited
  fuel_le : s.pending.length + nodes.length ≤ s.visited.length + fuel

variable {edge : α → α → Prop} {nodes seeds : List α}

theorem SearchInv.init (hseeds : ∀ a ∈ seeds, a ∈ nodes) :
    SearchInv edge nodes seeds nodes.length (State.visitAll ⟨[], []⟩ seeds) := by
  obtain ⟨new, hnew, hnd, -, hmem⟩ := exists_visitAll ⟨[], []⟩ seeds
  simp only [List.not_mem_nil, false_or, List.nil_append] at hmem hnew
  rw [hnew]
  refine ⟨hnd, hnd, fun a => id, fun a ha => hseeds a ((hmem a).1 ha), fun a => (hmem a).2,
    fun a ha => ⟨a, (hmem a).1 ha, .refl⟩, fun a ha hp => (hp ha).elim, Nat.le_refl _⟩

theorem SearchInv.expand {D : Discipline α} {fuel : Nat} {s : State α}
    (hedge : ∀ {a b}, edge a b → b ∈ nodes)
    (h : SearchInv edge nodes seeds (fuel + 1) s) {a : α} {pending l : List α}
    (hpop : D.pop s.pending = some (a, pending)) (hl : ∀ b, b ∈ l ↔ edge a b) :
    SearchInv edge nodes seeds fuel (State.visitAll ⟨s.visited, pending⟩ l) := by
  have hperm := D.perm hpop
  obtain ⟨hnot, hnd⟩ := List.nodup_cons.1 (hperm.nodup_iff.1 h.pending_nodup)
  have hsub : ∀ b ∈ pending, b ∈ s.pending := fun b hb => hperm.mem_iff.2 (.tail _ hb)
  have ha : a ∈ s.visited := h.pending_visited a (hperm.mem_iff.2 (.head _))
  obtain ⟨new, hnew, hnnd, hdisj, hmem⟩ := exists_visitAll ⟨s.visited, pending⟩ l
  dsimp only at hnew hdisj hmem
  have hcases : ∀ b, b ∈ s.visited ++ new ↔ b ∈ s.visited ∨ edge a b := fun b => by
    rw [List.mem_append, hmem, hl]
  rw [hnew]
  refine ⟨List.nodup_append'.2 ⟨h.nodup, hnnd, fun b hb hb' => hdisj hb' hb⟩, List.nodup_append'.2 ⟨hnd, hnnd, ?_⟩,
    ?_, ?_, fun b hb => List.mem_append_left _ (h.seeds_visited b hb), ?_, ?_, ?_⟩
  · exact fun b hb hb' => hdisj hb' (h.pending_visited b (hsub b hb))
  · intro b hb
    exact (List.mem_append.1 hb).elim
      (fun hb => List.mem_append_left _ (h.pending_visited b (hsub b hb)))
      (List.mem_append_right _)
  · intro b hb
    exact ((hcases b).1 hb).elim (h.visited_nodes b) hedge
  · intro b hb
    rcases (hcases b).1 hb with hb | hb
    · exact h.reachable b hb
    · obtain ⟨c, hc, hreach⟩ := h.reachable a ha
      exact ⟨c, hc, hreach.tail hb⟩
  · intro b hb hpend c hc
    rw [List.mem_append, not_or] at hpend
    have hb : b ∈ s.visited := (List.mem_append.1 hb).resolve_right hpend.2
    rw [hcases]
    -- the item just expanded is closed now, the others were
    by_cases hba : b = a
    · exact .inr (hba ▸ hc)
    · refine .inl (h.closed b hb (fun hp => ?_) c hc)
      exact (List.mem_cons.1 (hperm.mem_iff.1 hp)).elim hba hpend.1
  · have := hperm.length_eq
    have := h.fuel_le
    simp only [List.length_append, List.length_cons] at *
    omega

omit [DecidableEq α] in
/-- Once nothing is pending, the visited items are those the seeds reach. -/
theorem SearchInv.mem_iff {fuel : Nat} {s : State α} (h : SearchInv edge nodes seeds fuel s)
    (hp : s.pending = []) {x : α} :
    x ∈ s.visited ↔ ∃ b ∈ seeds, Relation.ReflTransGen edge b x := by
  refine ⟨h.reachable x, fun ⟨b, hb, hreach⟩ => ?_⟩
  induction hreach with
  | refl => exact h.seeds_visited b hb
  | tail hreach he ih => exact h.closed _ (ih ⟨b, hb, hreach⟩) (by simp [hp]) _ he

theorem search_of_inv {D : Discipline α} {next : α → Except ε (List α)}
    (hedge : ∀ {a b}, edge a b → b ∈ nodes)
    (hnext : ∀ a ∈ nodes, ∃ l, next a = .ok l ∧ ∀ b, b ∈ l ↔ edge a b)
    {fuel : Nat} {s : State α} (h : SearchInv edge nodes seeds fuel s) :
    ∃ v, search D next fuel s = .ok v ∧
      ∀ x, x ∈ v ↔ ∃ b ∈ seeds, Relation.ReflTransGen edge b x := by
  induction fuel generalizing s with
  | zero =>
    -- every node has been visited and expanded
    have hle := List.Subperm.length_le (h.nodup.subperm h.visited_nodes)
    have := h.fuel_le
    have hp : s.pending = [] := List.eq_nil_of_length_eq_zero (by omega)
    exact ⟨s.visited, rfl, fun x => h.mem_iff hp⟩
  | succ fuel ih =>
    cases hpop : D.pop s.pending with
    | none =>
      refine ⟨s.visited, ?_, fun x => h.mem_iff (D.empty hpop)⟩
      rw [search, hpop]
    | some e =>
      obtain ⟨a, pending⟩ := e
      have ha : a ∈ s.pending := (D.perm hpop).mem_iff.2 (.head _)
      obtain ⟨l, hl, hmem⟩ := hnext a (h.visited_nodes a (h.pending_visited a ha))
      obtain ⟨v, hv, hiff⟩ := ih (h.expand hedge hpop hmem)
      refine ⟨v, ?_, hiff⟩
      rw [search, hpop]
      dsimp only
      rw [hl]
      exact hv

theorem search_ok {D : Discipline α} {next : α → Except ε (List α)}
    (hedge : ∀ {a b}, edge a b → b ∈ nodes)
    (hnext : ∀ a ∈ nodes, ∃ l, next a = .ok l ∧ ∀ b, b ∈ l ↔ edge a b)
    (hseeds : ∀ a ∈ seeds, a ∈ nodes) :
    ∃ v, search D next nodes.length (State.visitAll ⟨[], []⟩ seeds) = .ok v ∧
      ∀ x, x ∈ v ↔ ∃ b ∈ seeds, Relation.ReflTransGen edge b x :=
  search_of_inv hedge hnext (.init hseeds)

end Luchta.Framework.Worklist
