import Luchta.Framework.Action
import Luchta.Framework.HashMap

/-!
# Memoised computations

A fallible computation with a state of caches. It computes a value if it gives that value from every
state in which the caches tell the truth, and leaves the caches so.

* `Computes.bind`, `Computes.mapM`: computations compose.
* `computes_memo`: a value looked up, or else computed and remembered.
-/

namespace Luchta.Framework

abbrev Memoised (σ ε α : Type) := ExceptT ε (StateM σ) α

variable {σ ε α β : Type} {inv : σ → Prop}

def Computes (inv : σ → Prop) (x : Memoised σ ε α) (value : Except ε α) : Prop :=
  ∀ s, inv s → (x s).1 = value ∧ inv (x s).2

theorem Computes.pure (a : α) : Computes inv (Pure.pure a : Memoised σ ε α) (.ok a) :=
  fun _ h => ⟨rfl, h⟩

theorem Computes.throw (e : ε) : Computes inv (MonadExcept.throw e : Memoised σ ε α) (.error e) :=
  fun _ h => ⟨rfl, h⟩

/-- A computation without caches. -/
theorem Computes.lift (x : Except ε α) : Computes inv (liftM x : Memoised σ ε α) x := by
  intro s h
  cases x with
  | error e => exact ⟨rfl, h⟩
  | ok a => exact ⟨rfl, h⟩

theorem Computes.bind {x : Memoised σ ε α} {f : α → Memoised σ ε β} {value : Except ε α}
    {f' : α → Except ε β} (hx : Computes inv x value)
    (hf : ∀ a, value = .ok a → Computes inv (f a) (f' a)) : Computes inv (x >>= f) (value >>= f') := by
  intro s hs
  obtain ⟨hvalue, hinv⟩ := hx s hs
  rw [bind_run]
  cases hxs : x s with
  | mk r s' =>
    rw [hxs] at hvalue hinv
    obtain rfl : r = value := hvalue
    cases r with
    | error e => exact ⟨rfl, hinv⟩
    | ok a => exact hf a rfl s' hinv

/-- Something done before the value is asked for. -/
theorem Computes.seq {x : Memoised σ ε β} {b : β} {f : β → Memoised σ ε α} {value : Except ε α}
    (hx : Computes inv x (.ok b)) (hf : Computes inv (f b) value) : Computes inv (x >>= f) value :=
  have hbind : Computes inv (x >>= f) (.ok b >>= fun _ => value) := hx.bind fun b' hb' => by
    obtain rfl := Except.ok.inj hb'
    exact hf
  hbind

/-- Something done after the value is there. -/
theorem Computes.andThen {x : Memoised σ ε α} {f : α → Memoised σ ε α} {value : Except ε α}
    (hx : Computes inv x value) (hf : ∀ a, value = .ok a → Computes inv (f a) (.ok a)) :
    Computes inv (x >>= f) value := by
  have h := (hx.bind hf : Computes inv (x >>= f) (value >>= .ok))
  cases value with
  | error e => exact h
  | ok a => exact h

theorem Computes.mapM {f : α → Memoised σ ε β} {f' : α → Except ε β} (l : List α)
    (hf : ∀ a ∈ l, Computes inv (f a) (f' a)) : Computes inv (l.mapM f) (l.mapM f') := by
  induction l with
  | nil => exact .pure []
  | cons a l ih =>
    rw [List.mapM_cons, List.mapM_cons]
    refine (hf a List.mem_cons_self).bind fun b _ => ?_
    refine (ih fun a' ha' => hf a' (List.mem_cons_of_mem _ ha')).bind fun bs _ => ?_
    exact .pure _

theorem Computes.foldlM {f : β → α → Memoised σ ε β} {f' : β → α → β} (l : List α)
    (hf : ∀ b, ∀ a ∈ l, Computes inv (f b a) (.ok (f' b a))) (b : β) :
    Computes inv (l.foldlM f b) (.ok (l.foldl f' b)) := by
  induction l generalizing b with
  | nil => exact .pure b
  | cons a l ih =>
    rw [List.foldlM_cons]
    exact (hf b a List.mem_cons_self).seq (ih (fun b a' ha' => hf b a' (List.mem_cons_of_mem _ ha')) _)

theorem computes_modify {f : σ → σ} (hf : ∀ s, inv s → inv (f s)) :
    Computes inv (modify f : Memoised σ ε PUnit) (.ok ⟨⟩) := fun s hs => ⟨rfl, hf s hs⟩

/-! ## Memos -/

def computeAndRemember (remember : α → σ → σ) (compute : Memoised σ ε α) : Memoised σ ε α := do
  let a ← compute
  modify (remember a)
  return a

/-- A value looked up, or else computed and remembered. -/
def memo (known : σ → Option α) (remember : α → σ → σ) (compute : Memoised σ ε α) :
    Memoised σ ε α := do
  match known (← get) with
  | some a => return a
  | none => computeAndRemember remember compute

theorem memo_run (known : σ → Option α) (remember : α → σ → σ) (compute : Memoised σ ε α) (s : σ) :
    memo known remember compute s = match known s with
      | some a => (.ok a, s)
      | none => computeAndRemember remember compute s := by
  show (match known s with
    | some a => pure a
    | none => computeAndRemember remember compute : Memoised σ ε α) s = _
  cases known s <;> rfl

/-- What a memo returns is remembered. -/
theorem known_memo {known : σ → Option α} {remember : α → σ → σ} {compute : Memoised σ ε α}
    (hremember : ∀ a s, known (remember a s) = some a) {s s' : σ} {a : α}
    (h : memo known remember compute s = (.ok a, s')) : known s' = some a := by
  rw [memo_run] at h
  split at h
  · rename_i a' ha'
    obtain ⟨ha, rfl⟩ := Prod.mk.inj h
    rw [ha', Except.ok.inj ha]
  · rw [computeAndRemember, bind_run] at h
    cases hrun : compute s with
    | mk r s'' =>
      rw [hrun] at h
      cases r with
      | error e => cases (Prod.mk.inj h).1
      | ok b =>
        obtain ⟨hb, rfl⟩ := Prod.mk.inj h
        rw [← Except.ok.inj hb]
        exact hremember b s''

/-- A memo computes what lies behind it, if the caches tell the truth about it. -/
theorem computes_memo {known : σ → Option α} {remember : α → σ → σ} {compute : Memoised σ ε α}
    {value : Except ε α} (hknown : ∀ s, inv s → ∀ a, known s = some a → value = .ok a)
    (hcompute : ∀ s, inv s → known s = none → (compute s).1 = value ∧ inv (compute s).2)
    (hremember : ∀ s, inv s → ∀ a, value = .ok a → inv (remember a s)) :
    Computes inv (memo known remember compute) value := by
  intro s hs
  rw [memo_run]
  cases ha : known s with
  | some a => exact ⟨(hknown s hs a ha).symm, hs⟩
  | none =>
    show (computeAndRemember remember compute s).1 = value ∧
      inv (computeAndRemember remember compute s).2
    obtain ⟨hvalue, hinv⟩ := hcompute s hs ha
    rw [computeAndRemember, bind_run]
    cases hrun : compute s with
    | mk r s' =>
      rw [hrun] at hvalue hinv
      obtain rfl : r = value := hvalue
      cases r with
      | error e => exact ⟨rfl, hinv⟩
      | ok a => exact ⟨rfl, hremember s' hinv a rfl⟩

end Luchta.Framework
