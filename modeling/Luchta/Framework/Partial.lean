import Mathlib.Data.List.Basic

/-!
# Partial loops

Loops over a list whose body may fail, in `Option`.

* `mapM_eq_some_map`, `mapM_pmap_eq_some`: a loop whose body never fails on the list does not fail.
* `foldlM_invariant`: the invariant rule, over the part of the list already consumed.
-/

namespace Luchta.Framework

variable {α β : Type*}

theorem mapM_eq_some_map {f : α → Option β} {F : α → β} {l : List α} (h : ∀ a ∈ l, f a = some (F a)) :
    l.mapM f = some (l.map F) := by
  induction l with
  | nil => rfl
  | cons a l ih =>
    rw [List.mapM_cons, h a List.mem_cons_self, ih fun c hc => h c (List.mem_cons_of_mem _ hc)]
    rfl

theorem mapM_pmap_eq_some {P : β → Prop} {F : ∀ b, P b → α} {f : α → Option β} {l : List β}
    {H : ∀ b ∈ l, P b} (h : ∀ b hb, f (F b hb) = some b) : (l.pmap F H).mapM f = some l := by
  induction l with
  | nil => rfl
  | cons b l ih => rw [List.pmap_cons, List.mapM_cons, h, ih]; rfl

/-- A loop that keeps `I` of the consumed prefix and the accumulator ends, with `I` of the list. -/
theorem foldlM_invariant {f : β → α → Option β} {l : List α} {b : β} (I : List α → β → Prop)
    (h0 : I [] b)
    (hs : ∀ pre a post b, l = pre ++ a :: post → I pre b → ∃ b', f b a = some b' ∧ I (pre ++ [a]) b') :
    ∃ b', l.foldlM f b = some b' ∧ I l b' := by
  suffices h : ∀ post pre b, l = pre ++ post → I pre b → ∃ b', post.foldlM f b = some b' ∧ I l b' from
    h l [] b rfl h0
  intro post
  induction post with
  | nil =>
    intro pre b hl hI
    rw [List.append_nil] at hl
    exact ⟨b, rfl, hl ▸ hI⟩
  | cons a post ih =>
    intro pre b hl hI
    obtain ⟨b', hb', hI'⟩ := hs pre a post b hl hI
    obtain ⟨b'', hb'', hI''⟩ := ih (pre ++ [a]) b' (by simpa using hl) hI'
    exact ⟨b'', by rw [List.foldlM_cons, hb']; exact hb'', hI''⟩

theorem exists_of_mem_mapM {f : α → Option β} {l : List α} {bs : List β} (h : l.mapM f = some bs)
    {b : β} (hb : b ∈ bs) : ∃ a ∈ l, f a = some b := by
  induction l generalizing bs with
  | nil =>
    obtain rfl := Option.some.inj h
    cases hb
  | cons a l ih =>
    rw [List.mapM_cons] at h
    obtain ⟨b', hb', h⟩ := Option.bind_eq_some_iff.1 h
    obtain ⟨bs', hbs', h⟩ := Option.bind_eq_some_iff.1 h
    obtain rfl := Option.some.inj h
    rcases List.mem_cons.1 hb with rfl | hb
    · exact ⟨a, List.mem_cons_self, hb'⟩
    · obtain ⟨a', ha', h⟩ := ih hbs' hb
      exact ⟨a', List.mem_cons_of_mem _ ha', h⟩

theorem exists_mem_of_mapM {f : α → Option β} {l : List α} {bs : List β} (h : l.mapM f = some bs)
    {a : α} (ha : a ∈ l) : ∃ b ∈ bs, f a = some b := by
  induction l generalizing bs with
  | nil => cases ha
  | cons c l ih =>
    rw [List.mapM_cons] at h
    obtain ⟨b, hb, h⟩ := Option.bind_eq_some_iff.1 h
    obtain ⟨bs', hbs', h⟩ := Option.bind_eq_some_iff.1 h
    obtain rfl := Option.some.inj h
    rcases List.mem_cons.1 ha with rfl | ha
    · exact ⟨b, List.mem_cons_self, hb⟩
    · obtain ⟨b', hb', h⟩ := ih hbs' ha
      exact ⟨b', List.mem_cons_of_mem _ hb', h⟩

end Luchta.Framework
