import Mathlib.Algebra.BigOperators.Group.Finset.Basic
import Mathlib.Algebra.Order.BigOperators.Group.List
import Mathlib.Algebra.Order.Group.Nat
import Mathlib.Algebra.GroupWithZero.Nat

/-!
# Backlogs

A writer takes items, one at a time, from a channel that holds `capacity` of them, and writes each to a
pipe; `size` says how much of the pipe's room an item takes. More senders than the channel has room for
wait with an item each, in whatever order they get their turn.

* `Passes`: of these items, the writer takes so many that the others fit into the channel.
* `Fits`: it is so for every order of the items that wait.
-/

namespace Luchta.Framework

variable {α : Type*} {capacity : Nat} {size : α → Nat} {room room' remaining : Nat} {items waiting : List α}

/-- All but the last one of the items that must be taken can be written, with what is being written. -/
def Passes (capacity : Nat) (size : α → Nat) (room remaining : Nat) (items : List α) : Prop :=
  capacity < items.length →
    remaining + ((items.take (items.length - capacity - 1)).map size).sum ≤ room

namespace Passes

theorem mono (h : Passes capacity size room remaining items) (hle : room ≤ room') :
    Passes capacity size room' remaining items := fun hlt => Nat.le_trans (h hlt) hle

/-- Fewer items, from the front, are easier. -/
theorem of_append (h : Passes capacity size room remaining (items ++ waiting)) :
    Passes capacity size room remaining items := by
  intro hlt
  have hall := h (by rw [List.length_append]; omega)
  refine Nat.le_trans (Nat.add_le_add_left ?_ remaining) hall
  refine List.Sublist.sum_le_sum (.map size ?_) fun _ _ => Nat.zero_le _
  have hle : items.length - capacity - 1 ≤ (items ++ waiting).length - capacity - 1 := by
    rw [List.length_append]
    omega
  have hsub := List.take_sublist_take_left (l := items ++ waiting) hle
  rwa [List.take_append_of_le_length (by omega)] at hsub

/-- The writer takes the next item. -/
theorem take {item : α} (h : Passes capacity size room 0 (item :: items)) :
    Passes capacity size room (size item) items := by
  intro hlt
  have hall := h (Nat.lt_succ_of_lt hlt)
  rw [show (item :: items).length - capacity - 1 = items.length - capacity - 1 + 1 by
    rw [List.length_cons]; omega, List.take_succ_cons, List.map_cons, List.sum_cons] at hall
  omega

/-- The writer writes as much as there is room for. -/
theorem write (h : Passes capacity size room remaining items) :
    Passes capacity size (room - remaining) (remaining - room) items := by
  intro hlt
  have hall := h hlt
  omega

/-- Where the channel is full and an item waits, what is being written can be written. -/
theorem le_room (h : Passes capacity size room remaining items) (hlt : capacity < items.length) :
    remaining ≤ room := Nat.le_trans (Nat.le_add_right _ _) (h hlt)

end Passes

/-- The same for every order in which the items that wait get into the channel. -/
def Fits (capacity : Nat) (size : α → Nat) (room remaining : Nat) (items : List α)
    (waiting : Multiset α) : Prop :=
  ∀ l : List α, ↑l = waiting → Passes capacity size room remaining (items ++ l)

namespace Fits

variable {waits waits' : Multiset α}

theorem mono (h : Fits capacity size room remaining items waits) (hle : room ≤ room') :
    Fits capacity size room' remaining items waits := fun l hl => (h l hl).mono hle

/-- Fewer items wait. -/
theorem anti (h : Fits capacity size room remaining items waits) (hle : waits' ≤ waits) :
    Fits capacity size room remaining items waits' := by
  obtain ⟨others, rfl⟩ := Multiset.le_iff_exists_add.1 hle
  intro l hl
  have hall := h (l ++ others.toList) (by rw [← Multiset.coe_add, hl, Multiset.coe_toList])
  rw [← List.append_assoc] at hall
  exact hall.of_append

/-- An item gets its turn. -/
theorem send {item : α} (h : Fits capacity size room remaining items waits)
    (hwaits : {item} + waits' = waits) :
    Fits capacity size room remaining (items ++ [item]) waits' := by
  intro l hl
  have hall := h (item :: l) (by rw [← hwaits, ← hl, Multiset.singleton_add]; rfl)
  rwa [List.append_assoc]

theorem take {item : α} (h : Fits capacity size room 0 (item :: items) waits) :
    Fits capacity size room (size item) items waits := fun l hl => (h l hl).take

theorem write (h : Fits capacity size room remaining items waits) :
    Fits capacity size (room - remaining) (remaining - room) items waits := fun l hl => (h l hl).write

/-- Where the channel is full and an item waits, what is being written can be written. -/
theorem le_room (h : Fits capacity size room remaining items waits) (hfull : capacity ≤ items.length)
    (hwaits : waits ≠ 0) : remaining ≤ room := by
  refine (h waits.toList (Multiset.coe_toList waits)).le_room ?_
  have hpos : 0 < waits.toList.length := by
    rw [Multiset.length_toList]
    exact Multiset.card_pos.2 hwaits
  rw [List.length_append]
  omega

end Fits

end Luchta.Framework
