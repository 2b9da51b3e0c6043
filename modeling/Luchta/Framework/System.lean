import Mathlib.Algebra.GroupWithZero.Nat
import Mathlib.Logic.Relation

/-!
# Labelled transition systems

A system is a set of initial states and an executable step function: a label
that is not enabled in a state gives `none`. Safety is proved over `Reach`, the
states of the runs whose every step meets a condition on the state it leaves
and on its label.

* `Reach.invariant`: a predicate that holds initially and that every admitted
  step keeps holds in every state reached.
* `Reach.mono`: fewer conditions reach more states.
* `Reach.run`: the end of a concrete run is reached.
-/

namespace Luchta.Framework

/-- States `σ`, labels `ℓ`, and a step function that is partial in the label. -/
structure System (σ ℓ : Type*) where
  init : σ → Prop
  step : σ → ℓ → Option σ

/-- The system that goes on from a state. -/
def System.resume {σ ℓ : Type*} (S : System σ ℓ) (s : σ) : System σ ℓ := ⟨(· = s), S.step⟩

/-- A sample run has one party or two, numbered from `0`. -/
instance neZeroOne : NeZero 1 := ⟨by decide⟩
instance neZeroTwo : NeZero 2 := ⟨by decide⟩

variable {σ ℓ : Type*}

/-- The states of the runs whose every step satisfies `C`. -/
inductive Reach (S : System σ ℓ) (C : σ → ℓ → Prop) : σ → Prop
  | init {s : σ} (h : S.init s) : Reach S C s
  | step {s t : σ} {l : ℓ} (h : Reach S C s) (hc : C s l) (hs : S.step s l = some t) : Reach S C t

/-- The states of all runs. -/
abbrev Reachable (S : System σ ℓ) : σ → Prop := Reach S fun _ _ => True

namespace Reach

variable {S : System σ ℓ} {C D : σ → ℓ → Prop}

/-- The invariant rule. The step case may use that its source state is reachable. -/
theorem invariant {I : σ → Prop} (hinit : ∀ s, S.init s → I s)
    (hstep : ∀ s l t, Reach S C s → I s → C s l → S.step s l = some t → I t)
    {s : σ} (h : Reach S C s) : I s := by
  induction h with
  | init h => exact hinit _ h
  | step h hc hs ih => exact hstep _ _ _ h ih hc hs

theorem mono (hcd : ∀ s l, C s l → D s l) {s : σ} (h : Reach S C s) : Reach S D s := by
  induction h with
  | init h => exact .init h
  | step _ hc hs ih => exact .step ih (hcd _ _ hc) hs

/-- A run and one that goes on from where it ends are one run. -/
theorem resume {s t : σ} (h : Reach S C s) (h' : Reach (S.resume s) C t) : Reach S C t := by
  induction h' with
  | init heq => exact heq ▸ h
  | step _ hc hs ih => exact .step ih hc hs

theorem reachable {s : σ} (h : Reach S C s) : Reachable S s :=
  h.mono fun _ _ _ => trivial

end Reach

/-- The state after the labels, or `none` where one of them is not enabled or not admitted. -/
def System.run (S : System σ ℓ) (C : σ → ℓ → Prop) [∀ s l, Decidable (C s l)] : σ → List ℓ → Option σ
  | s, [] => some s
  | s, l :: ls => if C s l then (S.step s l).bind fun t => S.run C t ls else none

/-- What a condition leaves open may hold of each of the labels. -/
theorem Reach.run_of_labels {S : System σ ℓ} {C D : σ → ℓ → Prop} [∀ s l, Decidable (D s l)]
    {s t : σ} {ls : List ℓ} (hs : Reach S C s) (hcd : ∀ s, ∀ l ∈ ls, D s l → C s l)
    (h : S.run D s ls = some t) : Reach S C t := by
  induction ls generalizing s with
  | nil => exact Option.some.inj h ▸ hs
  | cons l ls ih =>
    rw [System.run] at h
    split at h
    · rename_i hd
      obtain ⟨u, hu, ht⟩ := Option.bind_eq_some_iff.1 h
      exact ih (.step hs (hcd s l List.mem_cons_self hd) hu)
        (fun s l' hl' => hcd s l' (List.mem_cons_of_mem l hl')) ht
    · contradiction

theorem Reach.run {S : System σ ℓ} {C : σ → ℓ → Prop} [∀ s l, Decidable (C s l)] {s t : σ}
    {ls : List ℓ} (hs : Reach S C s) (h : S.run C s ls = some t) : Reach S C t :=
  hs.run_of_labels (fun _ _ _ hc => hc) h

theorem System.run_resume (S : System σ ℓ) (C : σ → ℓ → Prop) [∀ s l, Decidable (C s l)] (s t : σ)
    (ls : List ℓ) : (S.resume s).run C t ls = S.run C t ls := by
  induction ls generalizing t with
  | nil => rfl
  | cons l ls ih =>
    rw [System.run, System.run]
    simp only [ih]
    rfl

/-- What a run reaches from where it starts. -/
theorem System.reach_of_run {S : System σ ℓ} {C : σ → ℓ → Prop} [∀ s l, Decidable (C s l)] {s t : σ}
    {ls : List ℓ} (h : S.run C s ls = some t) : Reach (S.resume s) C t :=
  Reach.run (.init rfl) ((S.run_resume C s s ls).trans h)

end Luchta.Framework
