import Luchta.Framework.BTreeMap

/-!
# Ordered sets

An ordered set is an ordered map to the unit type, so that two sets with the same elements are the
same value and list them in the same order.

* `BTreeSet.mem_insert`, `BTreeSet.mem_extend`: what a set holds after an insertion.
* `BTreeSet.ext_mem`: a set is determined by its elements.
-/

namespace Luchta.Framework

abbrev BTreeSet (α : Type*) [LinearOrder α] := BTreeMap α Unit

namespace BTreeSet

variable {α : Type*} [LinearOrder α]

instance : Membership α (BTreeSet α) := ⟨fun s a => a ∈ BTreeMap.keys s⟩

instance (a : α) (s : BTreeSet α) : Decidable (a ∈ s) :=
  inferInstanceAs (Decidable (a ∈ BTreeMap.keys s))

def empty : BTreeSet α := BTreeMap.empty

def insert (s : BTreeSet α) (a : α) : BTreeSet α := BTreeMap.insert s a ()

def extend (s : BTreeSet α) (l : List α) : BTreeSet α := l.foldl insert s

/-- The elements, in order. -/
def toList (s : BTreeSet α) : List α := BTreeMap.keys s

@[simp] theorem not_mem_empty (a : α) : a ∉ (empty : BTreeSet α) := List.not_mem_nil

@[simp] theorem mem_toList {s : BTreeSet α} {a : α} : a ∈ s.toList ↔ a ∈ s := Iff.rfl

@[simp] theorem mem_insert {s : BTreeSet α} {a b : α} : a ∈ s.insert b ↔ a = b ∨ a ∈ s :=
  BTreeMap.mem_keys_insertEntry

@[simp] theorem mem_extend {s : BTreeSet α} {l : List α} {a : α} :
    a ∈ s.extend l ↔ a ∈ s ∨ a ∈ l := by
  induction l generalizing s with
  | nil => simp [extend]
  | cons b l ih =>
    rw [extend, List.foldl_cons, ← extend, ih, mem_insert, List.mem_cons]
    tauto

theorem ext_mem {s t : BTreeSet α} (h : ∀ a, a ∈ s ↔ a ∈ t) : s = t := by
  refine BTreeMap.ext_get? fun k => Option.ext fun _ => ?_
  have hkeys : k ∈ BTreeMap.keys s ↔ k ∈ BTreeMap.keys t := h k
  rw [BTreeMap.mem_keys_iff, BTreeMap.mem_keys_iff] at hkeys
  have hunit : ∀ s : BTreeSet α, (∃ v, s.get? k = some v) ↔ s.get? k = some () := fun s =>
    ⟨fun ⟨_, hv⟩ => hv, fun hv => ⟨(), hv⟩⟩
  rw [hunit, hunit] at hkeys
  exact hkeys

/-- The listing determines the set. -/
theorem toList_inj {s t : BTreeSet α} : s.toList = t.toList ↔ s = t :=
  ⟨fun h => ext_mem fun a => by rw [← mem_toList, h, mem_toList], fun h => h ▸ rfl⟩

theorem sorted_toList (s : BTreeSet α) : s.toList.Pairwise (· < ·) := BTreeMap.sorted s

end BTreeSet

end Luchta.Framework
