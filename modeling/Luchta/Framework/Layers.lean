import Mathlib.Data.List.Chain
import Mathlib.Data.List.Count
import Mathlib.Data.List.Nodup
import Mathlib.Logic.Relation
import Mathlib.Order.Bounds.Basic
import Mathlib.Order.MinMax
import Mathlib.Order.WellFounded

/-!
# Layers of a dependency relation

Items that depend on others are layered by the longest chain of dependencies below them.

* `exists_solution`: where following dependencies terminates, values can be defined from those below.
* `exists_isHeight`: there, every item has a height.
* `IsHeight.layering`: on a set of items, heights put each one directly above one of its dependencies.
* `Layering.layered`: grouping by such numbers gives the least layers, none of which is empty, and
  as many of them as the longest chain has items.
-/

namespace Luchta.Framework

open Relation (TransGen)

variable {α : Type*}

/-- Equations that define a value from the values below it have a solution. -/
theorem exists_solution {β : Type*} [Inhabited β] {r : α → α → Prop} (hwf : WellFounded r)
    {F : (α → β) → α → β} (hF : ∀ {V V' : α → β} {a : α}, (∀ b, r b a → V b = V' b) → F V a = F V' a) :
    ∃ V, ∀ a, V a = F V a := by
  classical
  refine ⟨hwf.fix fun a rec => F (fun b => if h : r b a then rec b h else default) a, fun a => ?_⟩
  rw [hwf.fix_eq]
  exact hF fun b hb => dif_pos hb

/-! ## Heights -/

/-- One more than the height of the highest of the items that `a` depends on. -/
def IsHeight (out : α → List α) (w : α → Nat) : Prop :=
  ∀ a, w a = ((out a).map fun b => w b + 1).foldl max 0

theorem exists_isHeight {out : α → List α} (hwf : WellFounded fun b a => b ∈ out a) :
    ∃ w, IsHeight out w := by
  refine exists_solution hwf (F := fun w a => ((out a).map fun b => w b + 1).foldl max 0) fun h => ?_
  rw [List.map_congr_left fun b hb => by rw [h b hb]]

theorem le_foldl_max (l : List Nat) (n : Nat) : n ≤ l.foldl max n := by
  induction l generalizing n with
  | nil => exact Nat.le_refl n
  | cons k l ih => exact Nat.le_trans (le_max_left n k) (ih (max n k))

theorem le_foldl_max_of_mem {l : List Nat} {k : Nat} (hk : k ∈ l) (n : Nat) : k ≤ l.foldl max n := by
  induction l generalizing n with
  | nil => exact absurd hk List.not_mem_nil
  | cons k' l ih =>
    rcases List.mem_cons.1 hk with rfl | hk
    · exact Nat.le_trans (le_max_right n k) (le_foldl_max l (max n k))
    · exact ih hk (max n k')

theorem foldl_max_mem (l : List Nat) (n : Nat) : l.foldl max n = n ∨ l.foldl max n ∈ l := by
  induction l generalizing n with
  | nil => exact .inl rfl
  | cons k l ih =>
    rcases ih (max n k) with h | h
    · rcases max_choice n k with hmax | hmax
      · exact .inl (h.trans hmax)
      · exact .inr (List.mem_cons.2 (.inl (h.trans hmax)))
    · exact .inr (List.mem_cons_of_mem _ h)

/-! ## Layerings -/

/-- Each item of `S` stands above those of `S` it depends on, and directly above one of them unless it
stands at the bottom. -/
structure Layering (dep : α → α → Prop) (S : α → Prop) (w : α → Nat) : Prop where
  later : ∀ {a b}, S a → S b → dep a b → w b < w a
  tight : ∀ {a}, S a → w a ≠ 0 → ∃ b, S b ∧ dep a b ∧ w b + 1 = w a

/-- The heights over the dependencies inside a set. -/
theorem IsHeight.layering {dep : α → α → Prop} {S : α → Prop} {out : α → List α} {w : α → Nat}
    (hw : IsHeight out w) (hout : ∀ {a b}, b ∈ out a ↔ dep a b ∧ S b) : Layering dep S w where
  later {a b} _ hb hdep := by
    have hmem : w b + 1 ∈ (out a).map fun b => w b + 1 :=
      List.mem_map.2 ⟨b, hout.2 ⟨hdep, hb⟩, rfl⟩
    have hle := le_foldl_max_of_mem hmem 0
    rw [← hw a] at hle
    omega
  tight {a} _ hne := by
    rcases foldl_max_mem ((out a).map fun b => w b + 1) 0 with h | h
    · exact absurd ((hw a).trans h) hne
    · obtain ⟨b, hb, heq⟩ := List.mem_map.1 h
      exact ⟨b, (hout.1 hb).2, (hout.1 hb).1, heq.trans (hw a).symm⟩

namespace Layering

variable {dep : α → α → Prop} {S : α → Prop} {w : α → Nat} {a b : α} {k : Nat}

/-- No numbering puts an item lower. -/
theorem le_of_later (h : Layering dep S w) {w' : α → Nat}
    (hw' : ∀ {a b}, S a → S b → dep a b → w' b < w' a) (ha : S a) : w a ≤ w' a := by
  induction hk : w a generalizing a with
  | zero => exact Nat.zero_le _
  | succ k ih =>
    obtain ⟨b, hb, hdep, heq⟩ := h.tight ha (by omega)
    have hle := ih hb (by omega)
    have hlt := hw' ha hb hdep
    omega

/-- There is an item at every height below that of an item. -/
theorem exists_eq (h : Layering dep S w) (ha : S a) (hk : k ≤ w a) : ∃ b, S b ∧ w b = k := by
  induction hn : w a generalizing a with
  | zero => exact ⟨a, ha, by omega⟩
  | succ n ih =>
    rcases Nat.lt_or_eq_of_le hk with hlt | heq
    · obtain ⟨b, hb, -, hstep⟩ := h.tight ha (by omega)
      exact ih hb (by omega) (by omega)
    · exact ⟨a, ha, heq.symm⟩

/-- A chain of dependencies down from an item, as long as the item is high. -/
theorem exists_chain (h : Layering dep S w) (ha : S a) :
    ∃ c, (a :: c).IsChain dep ∧ (∀ b ∈ a :: c, S b) ∧ c.length = w a := by
  induction hn : w a generalizing a with
  | zero =>
    refine ⟨[], List.isChain_singleton a, fun b hb => ?_, rfl⟩
    obtain rfl := List.mem_singleton.1 hb
    exact ha
  | succ n ih =>
    obtain ⟨b, hb, hdep, hstep⟩ := h.tight ha (by omega)
    obtain ⟨c, hchain, hmem, hlen⟩ := ih hb (by omega)
    refine ⟨b :: c, List.isChain_cons_cons.2 ⟨hdep, hchain⟩, fun x hx => ?_, by simp [hlen]⟩
    rcases List.mem_cons.1 hx with rfl | hx
    · exact ha
    · exact hmem x hx

/-- No chain is longer than its first item is high. -/
theorem length_le (h : Layering dep S w) {c : List α} (hchain : (a :: c).IsChain dep)
    (hmem : ∀ b ∈ a :: c, S b) : c.length ≤ w a := by
  induction c generalizing a with
  | nil => exact Nat.zero_le _
  | cons b c ih =>
    obtain ⟨hdep, hrest⟩ := List.isChain_cons_cons.1 hchain
    have hle := ih hrest fun x hx => hmem x (List.mem_cons_of_mem _ hx)
    have hlt := h.later (hmem a List.mem_cons_self) (hmem b (by simp)) hdep
    rw [List.length_cons]
    omega

theorem lt_of_transGen (h : Layering dep S w) (hclosed : ∀ {a b}, S a → dep a b → S b) (ha : S a)
    (hab : TransGen dep a b) : S b ∧ w b < w a := by
  induction hab with
  | single hdep => exact ⟨hclosed ha hdep, h.later ha (hclosed ha hdep) hdep⟩
  | tail _ hdep ih =>
    have hc := hclosed ih.1 hdep
    exact ⟨hc, (h.later ih.1 hc hdep).trans ih.2⟩

end Layering

/-- Where no item depends on itself, a chain passes none twice. -/
theorem nodup_of_isChain {dep : α → α → Prop} (hirr : ∀ a, ¬ TransGen dep a a) {c : List α}
    (h : c.IsChain dep) : c.Nodup := by
  have hchain : c.IsChain (TransGen dep) := h.imp fun _ _ hab => .single hab
  refine hchain.pairwise.imp fun {a b} hab heq => ?_
  subst heq
  exact hirr a hab

/-- Something depends on each item of a chain but the first. -/
theorem exists_dep_of_mem_chain {dep : α → α → Prop} {a b : α} {c : List α} (h : (a :: c).IsChain dep)
    (hb : b ∈ c) : ∃ x, dep x b := by
  induction c generalizing a with
  | nil => exact absurd hb List.not_mem_nil
  | cons b' c ih =>
    obtain ⟨hdep, hrest⟩ := List.isChain_cons_cons.1 h
    rcases List.mem_cons.1 hb with rfl | hb
    · exact ⟨a, hdep⟩
    · exact ih hrest hb

/-! ## Layers -/

/-- `layers` is the least partition of `S` in which every item comes after all that it depends on. -/
structure Layered (dep : α → α → Prop) (S : α → Prop) (layers : List (List α)) : Prop where
  mem : ∀ {a}, a ∈ layers.flatten ↔ S a
  nodup : layers.flatten.Nodup
  later : ∀ {i j : Nat} {a b : α} {l m : List α}, layers[i]? = some l → a ∈ l → layers[j]? = some m →
    b ∈ m → TransGen dep a b → j < i
  least : ∀ {i : Nat} {a : α} {l : List α}, layers[i]? = some l → a ∈ l → ∀ w : α → Nat,
    (∀ {b c}, S b → S c → TransGen dep b c → w c < w b) → i ≤ w a
  nonempty : ∀ l ∈ layers, l ≠ []
  longest : IsGreatest {n | ∃ c : List α, c.IsChain dep ∧ (∀ a ∈ c, S a) ∧ c.length = n} layers.length

theorem Layering.layered {dep : α → α → Prop} {S : α → Prop} {w : α → Nat} {layers : List (List α)}
    (h : Layering dep S w) (hclosed : ∀ {a b}, S a → dep a b → S b) (hnodup : ∀ l ∈ layers, l.Nodup)
    (hmem : ∀ {i : Nat} {l : List α}, layers[i]? = some l → ∀ {a}, a ∈ l ↔ S a ∧ w a = i)
    (hlt : ∀ {a}, S a → w a < layers.length) (hlast : layers = [] ∨ ∃ a, S a ∧ w a + 1 = layers.length) :
    Layered dep S layers where
  mem {a} := by
    refine ⟨fun ha => ?_, fun ha => ?_⟩
    · obtain ⟨l, hl, ha⟩ := List.mem_flatten.1 ha
      obtain ⟨i, hi⟩ := List.mem_iff_getElem?.1 hl
      exact ((hmem hi).1 ha).1
    · have hi := List.getElem?_eq_getElem (hlt ha)
      exact List.mem_flatten.2 ⟨_, List.mem_of_getElem? hi, (hmem hi).2 ⟨ha, rfl⟩⟩
  nodup := by
    refine List.nodup_flatten.2 ⟨hnodup, List.pairwise_iff_getElem.2 fun i j hi hj hij a ha ha' => ?_⟩
    -- an item of two layers would have two heights
    have hleft := ((hmem (List.getElem?_eq_getElem hi)).1 ha).2
    have hright := ((hmem (List.getElem?_eq_getElem hj)).1 ha').2
    omega
  later hi ha hj hb hdep := by
    obtain ⟨ha, rfl⟩ := (hmem hi).1 ha
    obtain ⟨-, rfl⟩ := (hmem hj).1 hb
    exact (h.lt_of_transGen hclosed ha hdep).2
  least hi ha w' hw' := by
    obtain ⟨ha, rfl⟩ := (hmem hi).1 ha
    exact h.le_of_later (fun hb hc hdep => hw' hb hc (.single hdep)) ha
  nonempty l hl := by
    obtain ⟨i, hi⟩ := List.mem_iff_getElem?.1 hl
    have hlen := (List.getElem?_eq_some_iff.1 hi).1
    rcases hlast with rfl | ⟨a, ha, hlast⟩
    · exact absurd hl List.not_mem_nil
    · obtain ⟨b, hb, heq⟩ := h.exists_eq ha (show i ≤ w a by omega)
      exact List.ne_nil_of_mem ((hmem hi).2 ⟨hb, heq⟩)
  longest := by
    refine ⟨?_, ?_⟩
    · rcases hlast with rfl | ⟨a, ha, hlast⟩
      · exact ⟨[], .nil, fun _ h => absurd h List.not_mem_nil, rfl⟩
      · obtain ⟨c, hchain, hc, hlen⟩ := h.exists_chain ha
        exact ⟨a :: c, hchain, hc, by rw [List.length_cons, hlen, hlast]⟩
    · rintro n ⟨c, hchain, hc, rfl⟩
      match c with
      | [] => exact Nat.zero_le _
      | a :: c =>
        have hle := h.length_le hchain hc
        have hlt := hlt (hc a List.mem_cons_self)
        rw [List.length_cons]
        omega

end Luchta.Framework
