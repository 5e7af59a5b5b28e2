import BtmStats.Spec.Collections.Prque

/-!
# `BtmStats.Proofs.Collections.Prque`: the priority queue

A queue in which the priority of a value is a function of the value stays in order, and
`PopItem` gives a value of greatest priority (`popItem_spec`).
-/

set_option autoImplicit false

namespace BtmStats.Proofs.Collections

open Lib Spec Spec.Collections

variable {α : Type} {prio : α → Int} {p : Prque α}

/-- The values in the queue. -/
def values (p : Prque α) : List α := p.cont.map Item.value

/-- The queue is a heap, and its priorities are those of its values. -/
structure Prioritised (prio : α → Int) (p : Prque α) : Prop where
  isHeap : Heap.IsHeap Item.priority p.cont
  priority : ∀ item ∈ p.cont, item.priority = prio item.value

theorem prioritised_new : Prioritised prio Prque.new :=
  ⟨fun j _ => by rw [Prque.new, Heap.keyAt_of_le (Nat.zero_le j)]; exact bot_le, nofun⟩

theorem push_spec (h : Prioritised prio p) (x : α) :
    Prioritised prio (p.push x (prio x)) ∧ (values (p.push x (prio x))).Perm (x :: values p) := by
  have hperm := Heap.push_perm Item.priority p.cont ⟨x, prio x⟩
  refine ⟨⟨Heap.push_isHeap h.isHeap _, fun item hitem => ?_⟩, hperm.map Item.value⟩
  rcases List.mem_cons.mp (hperm.mem_iff.mp hitem) with rfl | hmem
  · rfl
  · exact h.priority item hmem

/-- `PopItem` returns an element of the highest priority. -/
theorem popItem_spec (h : Prioritised prio p) (hne : p.empty = false) :
    ∃ x p', p.popItem = .ok (x, p') ∧ Prioritised prio p' ∧ (values p).Perm (x :: values p') ∧
      ∀ y ∈ values p, prio y ≤ prio x := by
  have hcont : p.cont ≠ [] := by
    intro hnil
    rw [Prque.empty, hnil] at hne
    cases hne
  obtain ⟨item, cont, hpop, hperm, hheap, hmax⟩ := Heap.pop_spec h.isHeap hcont
  refine ⟨item.value, ⟨cont⟩, ?_, ⟨hheap, fun it hit => ?_⟩, hperm.map Item.value, fun y hy => ?_⟩
  · rw [Prque.popItem, hpop]
    rfl
  · exact h.priority it (hperm.mem_iff.mpr (List.mem_cons_of_mem item hit))
  · obtain ⟨it, hit, rfl⟩ := List.mem_map.mp hy
    rw [← h.priority it hit, ← h.priority item (hperm.mem_iff.mpr List.mem_cons_self)]
    exact hmax it hit

theorem empty_iff : p.empty = true ↔ values p = [] := by
  rw [Prque.empty, decide_eq_true_iff, List.length_eq_zero_iff, values, List.map_eq_nil_iff]

theorem popItem_of_empty (h : p.empty = true) : p.popItem = .error .indexOutOfRange := by
  obtain ⟨cont⟩ := p
  obtain rfl : cont = [] := List.length_eq_zero_iff.mp (of_decide_eq_true h)
  rfl

/-- Numbers of 24 binary digits are converted exactly. -/
theorem toFloat32_of_lt {n : UInt64} (h : n.toNat < 2 ^ 24) : toFloat32 n = n.toNat := by
  rw [toFloat32]
  exact if_pos h

end BtmStats.Proofs.Collections
