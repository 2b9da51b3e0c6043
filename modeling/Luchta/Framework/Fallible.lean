import Mathlib.Data.List.Basic

/-!
# Fallible computations

What the success of a composed computation says of its parts.

* `bind_eq_ok`, `map_eq_ok`, `mem_mapM`: the parts succeeded.
* `foldlM_inv`: what every step of a fold keeps holds at its end.
* `foldlM_of_stop`: a fold fails at the first element that makes it fail.
-/

namespace Luchta.Framework

variable {ε ε' α β : Type*}

theorem bind_eq_ok {ε α β : Type} {x : Except ε α} {f : α → Except ε β} {b : β} :
    (x >>= f) = .ok b ↔ ∃ a, x = .ok a ∧ f a = .ok b := by
  constructor
  · intro h
    cases x with
    | error e => cases h
    | ok a => exact ⟨a, rfl, h⟩
  · rintro ⟨a, rfl, h⟩
    exact h

theorem map_eq_ok {x : Except ε α} {f : α → β} {b : β} :
    x.map f = .ok b ↔ ∃ a, x = .ok a ∧ f a = b := by
  constructor
  · intro h
    cases x with
    | error e => cases h
    | ok a => exact ⟨a, rfl, Except.ok.inj h⟩
  · rintro ⟨a, rfl, rfl⟩
    rfl

@[simp] theorem mapError_eq_ok {x : Except ε α} {f : ε → ε'} {a : α} :
    x.mapError f = .ok a ↔ x = .ok a := by
  cases x with
  | error e =>
    show Except.error (f e) = Except.ok a ↔ Except.error e = Except.ok a
    simp
  | ok b =>
    show Except.ok b = Except.ok a ↔ Except.ok b = Except.ok a
    simp

theorem mapError_eq_error {x : Except ε α} {f : ε → ε'} {e' : ε'} :
    x.mapError f = .error e' ↔ ∃ e, x = .error e ∧ f e = e' := by
  cases x with
  | error e =>
    show Except.error (f e) = Except.error e' ↔ _
    simp
  | ok b =>
    show Except.ok b = Except.error e' ↔ _
    simp

theorem toOption_eq_some {x : Except ε α} {a : α} : x.toOption = some a ↔ x = .ok a := by
  cases x with
  | error e => simp [Except.toOption]
  | ok b => simp [Except.toOption]

/-- What every step of a fold keeps holds at its end. -/
theorem foldlM_inv {ε α β : Type} {P : β → Prop} {f : β → α → Except ε β} {l : List α}
    (hf : ∀ a ∈ l, ∀ b b', P b → f b a = .ok b' → P b') {b b' : β} (hb : P b)
    (h : l.foldlM f b = .ok b') : P b' := by
  induction l generalizing b with
  | nil =>
    obtain rfl := Except.ok.inj h
    exact hb
  | cons a l ih =>
    rw [List.foldlM_cons, bind_eq_ok] at h
    obtain ⟨c, hc, hrest⟩ := h
    exact ih (fun a' ha' => hf a' (List.mem_cons_of_mem _ ha'))
      (hf a List.mem_cons_self b c hb hc) hrest

/-- A loop whose body never fails. -/
theorem mapM_eq_ok_map {ε α β : Type} {f : α → Except ε β} {F : α → β} {l : List α}
    (h : ∀ a ∈ l, f a = .ok (F a)) : l.mapM f = .ok (l.map F) := by
  induction l with
  | nil => rfl
  | cons a l ih =>
    rw [List.mapM_cons, h a List.mem_cons_self, ih fun c hc => h c (List.mem_cons_of_mem _ hc)]
    rfl

theorem mapM_cons_eq_ok {ε α β : Type} {f : α → Except ε β} {a : α} {l : List α} {bs : List β} :
    (a :: l).mapM f = .ok bs ↔ ∃ b, f a = .ok b ∧ ∃ bs', l.mapM f = .ok bs' ∧ b :: bs' = bs := by
  rw [List.mapM_cons, bind_eq_ok]
  refine exists_congr fun b => and_congr_right fun _ => ?_
  rw [bind_eq_ok]
  refine exists_congr fun bs' => and_congr_right fun _ => ?_
  exact ⟨Except.ok.inj, congrArg _⟩

/-- The results of a fallible traversal are those of its elements. -/
theorem mem_mapM {ε α β : Type} {f : α → Except ε β} {l : List α} {bs : List β}
    (h : l.mapM f = .ok bs) {b : β} : b ∈ bs ↔ ∃ a ∈ l, f a = .ok b := by
  induction l generalizing bs with
  | nil =>
    obtain rfl := Except.ok.inj h
    simp
  | cons a l ih =>
    obtain ⟨b', hb', bs', hbs', rfl⟩ := mapM_cons_eq_ok.1 h
    have heq : f a = .ok b ↔ b = b' := by
      rw [hb', Except.ok.injEq, eq_comm]
    rw [List.mem_cons, ih hbs', List.exists_mem_cons_iff, heq]

theorem exists_of_mapM {ε α β : Type} {f : α → Except ε β} {l : List α} {bs : List β}
    (h : l.mapM f = .ok bs) {a : α} (ha : a ∈ l) : ∃ b, f a = .ok b := by
  induction l generalizing bs with
  | nil => cases ha
  | cons a' l ih =>
    obtain ⟨b, hb, bs', hbs', -⟩ := mapM_cons_eq_ok.1 h
    rcases List.mem_cons.1 ha with rfl | ha
    · exact ⟨b, hb⟩
    · exact ih hbs' ha

/-- A traversal fails at one of its elements. -/
theorem exists_of_mapM_error {ε α β : Type} {f : α → Except ε β} {l : List α} {e : ε}
    (h : l.mapM f = .error e) : ∃ a ∈ l, f a = .error e := by
  induction l with
  | nil => cases h
  | cons a l ih =>
    rw [List.mapM_cons] at h
    cases hf : f a with
    | error e' =>
      rw [hf] at h
      cases h
      exact ⟨a, List.mem_cons_self, hf⟩
    | ok b =>
      rw [hf] at h
      cases hl : l.mapM f with
      | error e' =>
        rw [hl] at h
        cases h
        obtain ⟨a', ha', he⟩ := ih hl
        exact ⟨a', List.mem_cons_of_mem _ ha', he⟩
      | ok bs =>
        rw [hl] at h
        cases h

theorem exists_mapM {ε α β : Type} {f : α → Except ε β} {l : List α}
    (h : ∀ a ∈ l, ∃ b, f a = .ok b) : ∃ bs, l.mapM f = .ok bs := by
  induction l with
  | nil => exact ⟨[], rfl⟩
  | cons a l ih =>
    obtain ⟨b, hb⟩ := h a List.mem_cons_self
    obtain ⟨bs, hbs⟩ := ih fun a' ha' => h a' (List.mem_cons_of_mem _ ha')
    exact ⟨b :: bs, mapM_cons_eq_ok.2 ⟨b, hb, bs, hbs, rfl⟩⟩

/-- What holds of any two elements in order holds of what they yield. -/
theorem pairwise_mapM {ε α β : Type} {f : α → Except ε β} {R : α → α → Prop} {l : List α}
    {bs : List β} (h : l.mapM f = .ok bs) (hl : l.Pairwise R) :
    bs.Pairwise fun b b' => ∃ a ∈ l, ∃ a' ∈ l, f a = .ok b ∧ f a' = .ok b' ∧ R a a' := by
  induction l generalizing bs with
  | nil =>
    obtain rfl := Except.ok.inj h
    exact .nil
  | cons a l ih =>
    obtain ⟨ha, hl⟩ := List.pairwise_cons.1 hl
    obtain ⟨b, hb, bs, hbs, rfl⟩ := mapM_cons_eq_ok.1 h
    refine List.pairwise_cons.2 ⟨fun b' hb' => ?_, (ih hbs hl).imp ?_⟩
    · obtain ⟨a', ha', hfa'⟩ := (mem_mapM hbs).1 hb'
      exact ⟨a, List.mem_cons_self, a', List.mem_cons_of_mem _ ha', hb, hfa', ha a' ha'⟩
    · rintro c c' ⟨x, hx, y, hy, hrest⟩
      exact ⟨x, List.mem_cons_of_mem _ hx, y, List.mem_cons_of_mem _ hy, hrest⟩

/-- Where one traversal succeeds, so does another that agrees with it on every success. -/
theorem mapM_ok_of_ok {ε α β : Type} {f g : α → Except ε β} {l : List α} {bs : List β}
    (hfg : ∀ a ∈ l, ∀ b, f a = .ok b → g a = .ok b) (h : l.mapM f = .ok bs) : l.mapM g = .ok bs := by
  induction l generalizing bs with
  | nil => exact h
  | cons a l ih =>
    obtain ⟨b, hb, bs', hbs', rfl⟩ := mapM_cons_eq_ok.1 h
    exact mapM_cons_eq_ok.2 ⟨b, hfg a List.mem_cons_self b hb, bs',
      ih (fun a' ha' => hfg a' (List.mem_cons_of_mem _ ha')) hbs', rfl⟩

/-- Two folds whose steps correspond. -/
theorem foldlM_hom {ε α β γ : Type} {f : β → α → Except ε β} {f' : γ → α → Except ε γ} {h : β → γ}
    (hf : ∀ b a, f' (h b) a = (f b a).map h) (l : List α) (b : β) :
    l.foldlM f' (h b) = (l.foldlM f b).map h := by
  induction l generalizing b with
  | nil => rfl
  | cons a l ih =>
    rw [List.foldlM_cons, List.foldlM_cons, hf]
    cases f b a with
    | error e => rfl
    | ok b' => exact ih b'

/-- A fold whose steps fail depending on the element only fails at the first such element. -/
theorem foldlM_of_stop {ε α β : Type} {f : β → α → Except ε β} {stop : α → Option ε} {go : β → α → β}
    (hf : ∀ b a, f b a = (stop a).elim (.ok (go b a)) .error) (l : List α) (b : β) :
    l.foldlM f b = ((l.find? fun a => (stop a).isSome).bind stop).elim (.ok (l.foldl go b)) .error := by
  induction l generalizing b with
  | nil => rfl
  | cons a l ih =>
    rw [List.foldlM_cons, hf]
    cases hs : stop a with
    | none =>
      rw [List.find?_cons_of_neg (by simp [hs])]
      exact ih (go b a)
    | some e =>
      rw [List.find?_cons_of_pos (by simp [hs])]
      show Except.error e = ((stop a).elim (Except.ok (List.foldl go b (a :: l))) Except.error)
      rw [hs]
      rfl

end Luchta.Framework
