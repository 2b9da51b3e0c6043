import Mathlib.Logic.Basic

/-!
# Actions

An action works on a state and may fail; what it did to the state before it failed stays done. A
triple says what holds of the state afterwards, in either case.

* `Triple.bind`, `Triple.get`, `Triple.modify`: one step after the other.
* `Keeps`: an action that keeps a predicate of the state, whether it fails or not.
-/

namespace Luchta.Framework

abbrev Action (σ ε α : Type) := ExceptT ε (StateM σ) α

variable {σ ε α β : Type}

theorem bind_run (x : Action σ ε α) (f : α → Action σ ε β) (s : σ) :
    (x >>= f) s = match x s with
      | (.ok a, s') => f a s'
      | (.error e, s') => (.error e, s') := by
  show (match x s with
    | (r, s') => ExceptT.bindCont f r s') = _
  cases hxs : x s with
  | mk r s' => cases r <;> rfl

/-- From a state in `P`, success ends in `Q` and failure in `E`. -/
def Triple (P : σ → Prop) (x : Action σ ε α) (Q : α → σ → Prop) (E : σ → Prop) : Prop :=
  ∀ s, P s → match x s with
    | (.ok a, s') => Q a s'
    | (.error _, s') => E s'

/-- The action keeps `I`, whether it fails or not. -/
abbrev Keeps (I : σ → Prop) (x : Action σ ε α) : Prop := Triple I x (fun _ => I) I

namespace Triple

variable {P P' : σ → Prop} {x : Action σ ε α} {f : α → Action σ ε β} {Q Q' : α → σ → Prop}
  {R : β → σ → Prop} {E E' : σ → Prop}

theorem pure {a : α} (h : ∀ s, P s → Q a s) : Triple P (Pure.pure a : Action σ ε α) Q E := h

theorem throw {e : ε} (h : ∀ s, P s → E s) :
    Triple P (MonadExcept.throw e : Action σ ε α) Q E := h

theorem modify {g : σ → σ} {Q : PUnit → σ → Prop} (h : ∀ s, P s → Q ⟨⟩ (g s)) :
    Triple P (MonadState.modifyGet fun s => (⟨⟩, g s) : Action σ ε PUnit) Q E := h

theorem bind (hx : Triple P x Q E) (hf : ∀ a, Triple (Q a) (f a) R E) :
    Triple P (x >>= f) R E := by
  intro s hs
  rw [bind_run]
  have h := hx s hs
  cases hxs : x s with
  | mk r s' =>
    rw [hxs] at h
    cases r with
    | ok a => exact hf a s' h
    | error e => exact h

/-- What comes next may depend on the state it comes in. -/
theorem get {f : σ → Action σ ε β} (h : ∀ s, P s → Triple (· = s) (f s) R E) :
    Triple P (MonadState.get >>= f) R E := by
  intro s hs
  exact h s hs s rfl

theorem conseq (h : Triple P x Q E) (hP : ∀ s, P' s → P s) (hQ : ∀ a s, Q a s → Q' a s)
    (hE : ∀ s, E s → E' s) : Triple P' x Q' E' := by
  intro s hs
  have hrun := h s (hP s hs)
  cases hxs : x s with
  | mk r s' =>
    rw [hxs] at hrun
    cases r with
    | ok a => exact hQ a s' hrun
    | error e => exact hE s' hrun

theorem of_pre {s : σ} (h : Triple P x Q E) (hs : P s) : Triple (· = s) x Q E :=
  h.conseq (fun _ heq => heq ▸ hs) (fun _ _ h => h) fun _ h => h

/-- A part of the precondition that does not speak of the state. -/
theorem of_fact {p : Prop} (h : p → Triple P x Q E) : Triple (fun s => p ∧ P s) x Q E :=
  fun s hs => h hs.1 s hs.2

theorem and (h : Triple P x Q E) (h' : Triple P' x Q' E') :
    Triple (fun s => P s ∧ P' s) x (fun a s => Q a s ∧ Q' a s) fun s => E s ∧ E' s := by
  intro s hs
  have hrun := h s hs.1
  have hrun' := h' s hs.2
  cases hxs : x s with
  | mk r s' =>
    rw [hxs] at hrun hrun'
    cases r with
    | ok a => exact ⟨hrun, hrun'⟩
    | error e => exact ⟨hrun, hrun'⟩

theorem ok {s s' : σ} {a : α} (h : Triple P x Q E) (hs : P s) (hx : x s = (.ok a, s')) :
    Q a s' := by
  have hrun := h s hs
  rwa [hx] at hrun

theorem error {s s' : σ} {e : ε} (h : Triple P x Q E) (hs : P s) (hx : x s = (.error e, s')) :
    E s' := by
  have hrun := h s hs
  rwa [hx] at hrun

end Triple

/-- Whatever is done for each element of a list keeps what each of them keeps. -/
theorem Keeps.forM {I : σ → Prop} {l : List α} {f : α → Action σ ε PUnit}
    (h : ∀ a ∈ l, Keeps I (f a)) : Keeps I (l.forM f) := by
  induction l with
  | nil => exact .pure fun _ hs => hs
  | cons a l ih =>
    show Keeps I (f a >>= fun _ => l.forM f)
    exact (h a List.mem_cons_self).bind fun _ => ih fun b hb => h b (List.mem_cons_of_mem a hb)

end Luchta.Framework
